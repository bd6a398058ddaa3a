import DreamCore.Backend.Delivery

/-!
# When the report of commit is true

A report is true when every entry it lists has retired or taken its exception, and
the one it names as the next is the oldest that has not. It fails where commit has
filled it in for a finished entry that then stays, and only there. As long as it is
true, a CSR instruction or `mret` that dispatch lets go is the oldest instruction
that has not retired.
-/

namespace DreamCore

open Ring

namespace Pipe

variable {p : Pipe} {inp : PipeInput} {r : CycleResult} {d : Dispatch} {g₀ g : Ghost}
  {sent : List OpInfo} {entered : Bool → List OpInfo}

/-- **The report of a cycle is true.** `rob_retire_queue` lists what has retired or taken its
exception. -/
structure Truthful (p : Pipe) (r : CycleResult) : Prop where
  committed : ∀ i id, r.commit.feedback.committedRobId i = some id →
    id ∈ r.commit.retireQueue.map Prod.fst
  next : r.commit.feedback.nextHandleRobId
    = slotAt p.world.flight r.commit.retireQueue.length

/-- **A CSR instruction or `mret` that dispatch lets go in a cycle** is the oldest instruction
that does not retire in it. -/
def SendsOldest (p : Pipe) (r : CycleResult) (d : Dispatch) : Prop :=
  ∀ op ∈ p.upstream, op.waits = true →
    (∃ lsu, op.robId ∈ (d.port lsu ++ d.held lsu).map OpInfo.robId) →
    (p.infos.drop r.commit.retired.length).head? = some op

/-- **The report is true exactly where no finished entry stays.** -/
theorem truthful_iff_of_holds (hw : p.world.Holds g₀) (hc : p.Cycle inp r d) :
    p.Truthful r ↔ p.world.core.misreports inp.cycle.commit.writeAck = false := by
  obtain ⟨q, hlog, hq, hrep, hmem⟩ := cycle_report hw hc.core
  have hlen : r.commit.retireQueue.length = q := by
    have hlen := congrArg List.length hlog
    rw [List.length_map, List.length_map, List.length_take, Nat.min_eq_left hq] at hlen
    exact hlen
  cases hmis : p.world.core.misreports inp.cycle.commit.writeAck with
  | false =>
    rw [hmis, Bool.toNat_false, Nat.add_zero] at hrep
    refine ⟨fun _ => rfl, fun _ => ⟨fun i id hi => ?_, ?_⟩⟩
    · rw [hrep.committed] at hi
      split at hi
      · rename_i hlt
        rw [hlog]
        obtain ⟨f, hf, rfl⟩ := Option.map_eq_some_iff.mp hi
        rw [← List.getElem?_take_of_lt hlt] at hf
        exact List.mem_map_of_mem (List.mem_of_getElem? hf)
      · cases hi
    · rw [hrep.next, hlen]
  | true =>
    rw [hmis, Bool.toNat_true] at hrep
    refine ⟨fun ht => ?_, fun h => by cases h⟩
    obtain ⟨id, hid, -⟩ := hmem hmis
    -- the entry that stays has been listed
    have hlisted : r.commit.feedback.committedRobId q = some id := by
      rw [hrep.committed, if_pos (Nat.lt_succ_self q), hid]
    have hin := ht.committed q id hlisted
    rw [hlog] at hin
    obtain ⟨f, hf, hfid⟩ := List.mem_map.mp hin
    obtain ⟨f', hf', hfid'⟩ := Option.map_eq_some_iff.mp hid
    have hdrop : f' ∈ p.world.flight.drop q := by
      have hzero : (p.world.flight.drop q)[0]? = some f' := by
        rw [List.getElem?_drop]
        exact hf'
      exact List.mem_of_getElem? hzero
    have hnd := hw.slots_nodup
    rw [← List.take_append_drop q p.world.flight, List.map_append, List.nodup_append] at hnd
    exact absurd (hfid.trans hfid'.symm)
      (hnd.2.2 _ (List.mem_map_of_mem hf) _ (List.mem_map_of_mem hdrop))

/-- **Dispatch lets a CSR instruction or `mret` go as the next one commit will handle**, and the
report says which one that is. -/
theorem sendsOldest_of_truthful (hp : p.Places sent entered) (hw : p.world.Holds g₀)
    (hw' : (p.act inp r d).world.Holds g) (hc : p.Cycle inp r d) (ht : p.Truthful r) :
    p.SendsOldest r d := by
  intro op hop hwaits ⟨lsu, hsent⟩
  obtain ⟨op', hsent, he⟩ := List.mem_map.mp hsent
  rcases hp.step hw hw' hc with ⟨hflush, hp'⟩ | ⟨sent', entered', moved, k, hm, -, -⟩
  · -- under a flush nothing is sent
    rw [hc.dropped hflush] at hsent
    cases lsu <;> simp [Dispatch.port, Dispatch.held] at hsent
  · -- it was upstream, so it is one of those dispatch lets go in this cycle
    have hage := hp.younger hw
    have hmoved : op' ∈ ofClass lsu moved := by
      have hold : op' ∉ p.waiting lsu := by
        intro hop'
        obtain ⟨x, hx, rfl, -⟩ := hp.waiting_sent hop'
        rw [OpInfo.toIssue_robId] at he
        exact hp.not_upstream hw hx hop he.symm
      rw [hm.turn.flow] at hsent
      rcases List.mem_append.mp hsent with h | h
      · split at h
        · exact absurd (mem_waiting.mpr (.inr (.inl (List.mem_of_mem_filter h)))) hold
        · cases h
      · rcases List.mem_append.mp h with h | h
        · exact absurd (mem_waiting.mpr (.inr (.inr (List.mem_of_mem_filter h)))) hold
        · exact h
    obtain ⟨x, hx, rfl, -⟩ := mem_ofClass hmoved
    have hid : x.robId = op.robId := by
      rw [← OpInfo.toIssue_robId x]
      exact he
    have hsame : x = op :=
      eq_of_robId (List.pairwise_append.mp hage).2.1 (hm.upstream (List.mem_append_left _ hx)) hop hid
    subst hsame
    have hnext : r.commit.feedback.nextHandleRobId = some x.robId.id := by
      have hgate := hm.gate
      cases hgate with
      | closed => cases hx
      | passing _ _ _ _ hno =>
        have := (hno x hx).1
        rw [hwaits] at this
        cases this
      | inst op' _ _ hnext _ _ _ =>
        rw [List.mem_singleton.mp hx]
        exact hnext
      | fence _ _ _ _ hno _ _ _ _ =>
        have := hno x hx
        rw [hwaits] at this
        cases this
    -- the slot commit names is the one of the oldest instruction that has not retired
    rw [ht.next, ← retired_eq_retireQueue hw hc hm.commitFlush] at hnext
    obtain ⟨f, hf, hfid⟩ := Option.map_eq_some_iff.mp hnext
    have hinfo : f.info ∈ p.infos := List.mem_map_of_mem (List.mem_of_getElem? hf)
    have hxin : x ∈ p.infos := by
      rw [hp.flight]
      exact List.mem_append_right _ hop
    obtain ⟨f', hf', rfl⟩ := List.mem_map.mp hxin
    have hff : f = f' := List.inj_on_of_nodup_map hw.slots_nodup (List.mem_of_getElem? hf) hf' hfid
    rw [List.head?_drop, infos, List.getElem?_map, hf, hff]
    rfl

/-- **What commit tells dispatch is true exactly in the cycles in which no finished entry stays**,
and in these a CSR instruction or `mret` leaves dispatch only as the oldest. -/
theorem truthful_iff (h : p.Reachable) (hc : p.Cycle inp r d) :
    (p.Truthful r ∧ p.SendsOldest r d)
      ↔ p.world.core.misreports inp.cycle.commit.writeAck = false := by
  obtain ⟨g₀, hw⟩ := h.world.holds
  obtain ⟨g, hw'⟩ := (Run.cycle inp r d h hc trivial).world.holds
  obtain ⟨sent, entered, hp, -⟩ := h.places
  constructor
  · exact fun ht => (truthful_iff_of_holds hw hc).mp ht.1
  · intro hmis
    have ht := (truthful_iff_of_holds hw hc).mpr hmis
    exact ⟨ht, sendsOldest_of_truthful hp hw hw' hc ht⟩

/-! ## A store that is not the first of its group -/

/-- A cycle in which the oldest store in flight computes its address and reads its data. -/
def executesStore (p : Pipe) : PipeInput :=
  let store := p.world.flight.find? fun f => f.info.opUnit == .sdu
  { cycle := {
      sau := store.map fun f => { f.info.operands with
        opUnit := .sau
        subOp := .sau .staw }
      sdu := store.map fun f => f.info.operands } }

/-- A cycle in which all that has issued and is not finished hands its result to commit. -/
def finishes (p : Pipe) : PipeInput :=
  let ready := p.world.flight.filter fun f =>
    decide (f.info.robId ∈ p.issued) && !(p.world.core.rob.buffer f.info.robId.id).finish
  { cycle := { commit := { executeCommitPort := ready.map fun f => .copy f.info.operands } } }

theorem executesStore_legal (p : Pipe) : (executesStore p).Legal p := by
  have hstore : ∀ f, p.world.flight.find? (fun f => f.info.opUnit == .sdu) = some f →
      f ∈ p.world.flight ∧ f.info.opUnit = .sdu := by
    intro f hf
    exact ⟨List.mem_of_find?_eq_some hf, by simpa using List.find?_some hf⟩
  refine ⟨{ idle_legal p.world with
      decoded := by simp [executesStore]
      results := by simp [executesStore]
      sau := ?_
      sdu := ?_ }, (fun _ h => by cases h), fun _ h => by simp [executesStore] at h⟩
  · intro rev hrev
    obtain ⟨f, hf, rfl⟩ := Option.map_eq_some_iff.mp hrev
    obtain ⟨hmem, hu⟩ := hstore f hf
    have hop := operandsOf_operands f.info
    refine ⟨f, hmem, ⟨hop.robId, hop.pack, ?_, ?_⟩, rfl⟩
    · simp [hu]
    · rw [hu]
      rfl
  · intro rev hrev
    obtain ⟨f, hf, rfl⟩ := Option.map_eq_some_iff.mp hrev
    obtain ⟨hmem, hu⟩ := hstore f hf
    refine ⟨f, hmem, operandsOf_operands f.info, ?_⟩
    simp [OpInfo.operands, OpInfo.toIssue, OpInfo.toLsu, hu, OpUnit.isLsu]

theorem finishes_legal (p : Pipe) : (finishes p).Legal p := by
  have hport : ∀ rev ∈ (finishes p).cycle.commit.executeCommitPort, ∃ f ∈ p.world.flight,
      rev = .copy f.info.operands ∧ f.info.robId ∈ p.issued := by
    intro rev hrev
    obtain ⟨f, hf, rfl⟩ := List.mem_map.mp hrev
    obtain ⟨hmem, hc⟩ := List.mem_filter.mp hf
    rw [Bool.and_eq_true, decide_eq_true_eq] at hc
    exact ⟨f, hmem, rfl, hc.1⟩
  refine ⟨{ idle_legal p.world with decoded := by simp [finishes], results := ?_ },
    (fun _ h => by cases h), fun rev hrev _ _ => ?_⟩
  · intro rev hrev _
    obtain ⟨f, hf, rfl, -⟩ := hport rev hrev
    exact ⟨f, hf, resultOf_operands f.info⟩
  · obtain ⟨f, -, rfl, hissued⟩ := hport rev hrev
    rw [(resultOf_operands f.info).robId]
    exact hissued

/-- The same input, with rename stalled while dispatch keeps a pack. -/
def whileBusy (inp : Pipe → PipeInput) (p : Pipe) : PipeInput :=
  { inp p with cycle := { (inp p).cycle with dispatchStall := p.dispatch.busy } }

theorem whileBusy_legal {inp : Pipe → PipeInput} (h : (inp p).Legal p) :
    (whileBusy inp p).Legal p :=
  ⟨⟨h.cycle.decoded, h.cycle.results, h.cycle.bru, h.cycle.sau, h.cycle.sdu, h.cycle.lu⟩,
    h.branch, h.finished⟩

/-- `addi x1, x0, 5`, `sw x1, 0(x2)` and, behind them, `csrrs x5, mscratch, x0`. -/
def addStoreCsrRun : List (Pipe → PipeInput) :=
  [fetches [plainPack 0x80000000 0x00500093, plainPack 0x80000004 0x00112023],
    fetches [plainPack 0x80000008 0x340022F3], fetches [], whileBusy issues,
    whileBusy executesStore, whileBusy finishes]

/-- The state in which the first two are finished and the third waits in dispatch. -/
def csrWaits : Pipe := (Pipe.play addStoreCsrRun Pipe.init).getD Pipe.init

theorem csrWaits_reachable : csrWaits.Reachable := by
  have hadd : ∀ q ∈ [plainPack 0x80000000 0x00500093, plainPack 0x80000004 0x00112023],
      q.FetchOk := by
    intro q hq
    simp only [List.mem_cons, List.not_mem_nil, or_false] at hq
    rcases hq with rfl | rfl <;> exact plainPack_ok ..
  have hcsr : ∀ q ∈ [plainPack 0x80000008 0x340022F3], q.FetchOk := by
    intro q hq
    rw [List.mem_singleton.mp hq]
    exact plainPack_ok ..
  obtain ⟨p, hp⟩ : ∃ p, Pipe.play addStoreCsrRun Pipe.init = some p :=
    Option.isSome_iff_exists.mp (by decide +kernel)
  rw [csrWaits, hp, Option.getD_some]
  refine Run.play _ ?_ .init hp
  intro inp hinp p
  simp only [addStoreCsrRun, List.mem_cons, List.not_mem_nil, or_false] at hinp
  rcases hinp with rfl | rfl | rfl | rfl | rfl | rfl
  · exact ⟨fetches_legal hadd p, fun _ => trivial⟩
  · exact ⟨fetches_legal hcsr p, fun _ => trivial⟩
  · exact ⟨fetches_legal (by simp) p, fun _ => trivial⟩
  · exact ⟨whileBusy_legal (issues_legal p), fun _ => trivial⟩
  · exact ⟨whileBusy_legal (executesStore_legal p), fun _ => trivial⟩
  · exact ⟨whileBusy_legal (finishes_legal p), fun _ => trivial⟩

/-- **The store is reported although it stays, and `csrrs` leaves dispatch in front of it.** -/
theorem csrWaits_misreported : csrWaits.Reachable ∧ ∃ inp r d, csrWaits.Cycle inp r d
    ∧ ¬ csrWaits.Truthful r ∧ ¬ csrWaits.SendsOldest r d := by
  refine ⟨csrWaits_reachable, whileBusy (fun _ => {}) csrWaits, ?_⟩
  have hlegal : (whileBusy (fun _ => {}) csrWaits).Legal csrWaits :=
    whileBusy_legal ⟨idle_legal _, (fun _ h => by cases h), fun _ h => by cases h⟩
  obtain ⟨p', hp'⟩ : ∃ p', csrWaits.step (whileBusy (fun _ => {}) csrWaits) = some p' :=
    Option.isSome_iff_exists.mp (by decide +kernel)
  obtain ⟨r, d, hc, -⟩ := step_eq_some hlegal hp'
  have hreport : (csrWaits.world.core.cycle (whileBusy (fun _ => {}) csrWaits).cycle).map
      (fun r => (r.commit.feedback.committedRobId 1, r.commit.retireQueue.map Prod.fst,
        (csrWaits.infos.drop r.commit.retired.length).head?.map OpInfo.robId))
      = some (some 1, [0], some ⟨1, false⟩) := by
    decide +kernel
  have hsent : (csrWaits.world.core.cycle (whileBusy (fun _ => {}) csrWaits).cycle).map
      (fun r => (csrWaits.dispatch.run (csrWaits.dispatchInput r)).map
        fun d => (d.port false ++ d.held false).map OpInfo.robId)
      = some (some [⟨2, false⟩]) := by
    decide +kernel
  have hwaits : csrWaits.upstream.map (fun op => (op.robId, op.waits)) = [(⟨2, false⟩, true)] := by
    decide +kernel
  rw [hc.core, Option.map_some, Option.some.injEq, Prod.mk.injEq, Prod.mk.injEq] at hreport
  rw [hc.core, Option.map_some, Option.some.injEq, hc.dispatch, Option.map_some,
    Option.some.injEq] at hsent
  obtain ⟨hlisted, hlog, holdest⟩ := hreport
  refine ⟨r, d, hc, fun ht => ?_, fun hs => ?_⟩
  · have hin := ht.committed 1 1 hlisted
    rw [hlog] at hin
    simp at hin
  · obtain ⟨op, hop, he⟩ := List.map_eq_singleton_iff.mp hwaits
    rw [Prod.mk.injEq] at he
    have hhead := hs op (by rw [hop]; exact List.mem_singleton_self op) he.2
      ⟨false, by rw [hsent, he.1]; exact List.mem_singleton_self _⟩
    rw [hhead, Option.map_some, he.1] at holdest
    simp at holdest

/-- `addi x1, x0, 5` and `addi x1, x1, 1`, fetched, issued and computed. -/
def addTwiceRun : List (Pipe → PipeInput) :=
  [fetches [plainPack 0x80000000 0x00500093, plainPack 0x80000004 0x00108093], fetches [],
    fetches [], issues, computes]

/-- The state in which both are finished. -/
def addedTwice : Pipe := (Pipe.play addTwiceRun Pipe.init).getD Pipe.init

theorem addedTwice_reachable : addedTwice.Reachable := by
  have hadd : ∀ q ∈ [plainPack 0x80000000 0x00500093, plainPack 0x80000004 0x00108093],
      q.FetchOk := by
    intro q hq
    simp only [List.mem_cons, List.not_mem_nil, or_false] at hq
    rcases hq with rfl | rfl <;> exact plainPack_ok ..
  obtain ⟨p, hp⟩ : ∃ p, Pipe.play addTwiceRun Pipe.init = some p :=
    Option.isSome_iff_exists.mp (by decide +kernel)
  rw [addedTwice, hp, Option.getD_some]
  refine Run.play _ ?_ .init hp
  intro inp hinp p
  simp only [addTwiceRun, List.mem_cons, List.not_mem_nil, or_false] at hinp
  rcases hinp with rfl | rfl | rfl | rfl | rfl
  · exact ⟨fetches_legal hadd p, fun _ => trivial⟩
  · exact ⟨fetches_legal (by simp) p, fun _ => trivial⟩
  · exact ⟨fetches_legal (by simp) p, fun _ => trivial⟩
  · exact ⟨issues_legal p, fun _ => trivial⟩
  · exact ⟨computes_legal p, fun _ => trivial⟩

/-- Both are reported, and both retire. -/
theorem truthful_iff_addedTwice : ∃ r d, addedTwice.Cycle {} r d
    ∧ r.commit.feedback.committedRobId 1 = some 1
    ∧ addedTwice.Truthful r ∧ addedTwice.SendsOldest r d := by
  obtain ⟨p', hp'⟩ : ∃ p', addedTwice.step {} = some p' :=
    Option.isSome_iff_exists.mp (by decide +kernel)
  obtain ⟨r, d, hc, -⟩ := step_eq_some
    ⟨idle_legal _, (fun _ h => by cases h), fun _ h => by cases h⟩ hp'
  have hlisted : (addedTwice.world.core.cycle {}).map
      (fun r => r.commit.feedback.committedRobId 1) = some (some 1) := by
    decide +kernel
  rw [hc.core, Option.map_some, Option.some.injEq] at hlisted
  exact ⟨r, d, hc, hlisted, (truthful_iff addedTwice_reachable hc).mpr (by decide +kernel)⟩

end Pipe

end DreamCore
