import DreamCore.Backend.Pipe
import DreamCore.Backend.Training
import DreamCore.Frontend.History
import DreamCore.Machine.Continuity

/-!
# Reconvergence of the speculative history

A run of the machine in which the predictors are given what commit and the branch
unit queue for them. Next to it go the outcomes of all conditional branches that
have retired, and for each one in flight the way the path behind it has gone.

The history of commit is always the one of these outcomes. The speculative history
is set by two recoveries only, and neither is exact: commit restores it before it
shifts the branch's own outcome in, and only where a conditional branch flushes; the
branch unit restores it to what was recorded when the group of the branch was
fetched, and only for a conditional branch.
-/

namespace DreamCore

open Ring

/-- `bi_mode`'s `global_history`. -/
def Machine.globalHistory (m : Machine) : Word := m.fetch.front.predictors.biMode.globalHistory

/-- `bi_mode`'s `global_history_retired`. -/
def Machine.globalHistoryRetired (m : Machine) : Word :=
  m.fetch.front.predictors.biMode.globalHistoryRetired

/-- What commit and the branch unit queue for `bi_mode` in a cycle. -/
def Machine.queued (m : Machine) (inp : CycleInput) (r : CycleResult) : List SyncRequest :=
  (r.commit.updates.map fun u => .biModeUpdate u.pc u.jump u.hit u.pack)
    ++ match r.commit.feedback.flush, inp.bru with
      | false, some rev =>
          let send := bruCompute m.world.core.csrFile rev
          if !r.sau.squashesEqual rev.robId && (bruFeedback send).flush then
            [.bruSpeculativeUpdate send.bruJump false send.branchPredictorInfoPack]
          else []
      | _, _ => []

/-- What the branches of a run have done so far. -/
structure Past where
  /-- The outcomes of the conditional branches that have retired, oldest first. -/
  outcomes : List Bool
  /-- The way the path behind the branch in a slot of the ROB has gone: the predicted one, or,
  after a recovery, the real one. -/
  took : Nat → Bool

/-- The past after a cycle. -/
def Past.act (past : Past) (m : Machine) (inp : CycleInput) (r : CycleResult) : Past where
  outcomes := past.outcomes ++ outcomesOf r.commit.retired
  took := fun slot =>
    match r.rename.turns.find? fun t => t.1.robId.id == slot with
    | some t => t.1.branchPredictorInfoPack.jump
    | none =>
        match inp.bru with
        | some rev =>
            if r.bru.flush && rev.robId.id == slot then
              (bruCompute m.world.core.csrFile rev).bruJump
            else past.took slot
        | none => past.took slot

/-- **The machines that runs from reset reach**, with their past. -/
inductive Remembers : Machine → Past → Prop where
  | init : Remembers Machine.init ⟨[], fun _ => false⟩
  | cycle {m : Machine} {past : Past} (inp : Machine.Input) (r : CycleResult) (f : FrontResult) :
      Remembers m past → m.Legal inp → m.world.core.cycle inp.cycle = some r →
      inp.requests = m.queued inp.cycle r → m.fetch.front.cycle (m.frontInput inp r) = some f →
      Remembers (m.act inp r f) (past.act m inp.cycle r)

/-- The ways the path has gone up to an instruction: the outcomes of what has retired, then those
of the conditional branches in flight that are older. -/
def Machine.pathTo (m : Machine) (past : Past) (robId : Ptr) : List Bool :=
  past.outcomes ++ (m.world.flight.takeWhile fun f => f.info.robId != robId).flatMap fun f =>
    if f.info.branchPredictorInfoPack.conditionJump then [past.took f.info.robId.id] else []

variable {m : Machine} {past : Past} {inp : Machine.Input} {r : CycleResult} {f : FrontResult}

/-- **The speculative history reconverges in a cycle.** After a flush of commit it is the history
of all that has retired; after a recovery of a branch it is the one up to the branch, and the
branch's own outcome. -/
structure Machine.Reconverges (m : Machine) (past : Past) (inp : Machine.Input) (r : CycleResult)
    (f : FrontResult) : Prop where
  flushed : r.commit.feedback.flush = true →
    (m.act inp r f).globalHistory = (m.act inp r f).globalHistoryRetired
      ∧ (m.act inp r f).globalHistoryRetired
        = BiMode.history (past.act m inp.cycle r).outcomes
  recovered : r.bru.flush = true → ∀ rev, inp.cycle.bru = some rev →
    (m.act inp r f).globalHistory = BiMode.history (m.pathTo past rev.robId
      ++ if rev.branchPredictorInfoPack.conditionJump then
        [(bruCompute m.world.core.csrFile rev).bruJump] else [])

/-- **The recoveries of a cycle miss nothing.** Where commit flushes at a conditional branch, its
outcome is one the history of commit does not notice; where it flushes for another reason, the two
histories agree already. Where the branch unit recovers a conditional branch, what was recorded
for it is the history up to it, but for the outcome the shift loses; for another branch, nothing
has been shifted in behind it. -/
structure Machine.InStep (m : Machine) (past : Past) (inp : Machine.Input) (r : CycleResult) :
    Prop where
  flushed : r.commit.feedback.flush = true →
    match m.world.core.closingBranch inp.cycle.commit.writeAck with
    | some item => BiMode.shift m.globalHistoryRetired item.bruJump = m.globalHistoryRetired
    | none => m.globalHistory = m.globalHistoryRetired
  recovered : r.bru.flush = true → ∀ rev, inp.cycle.bru = some rev →
    if rev.branchPredictorInfoPack.conditionJump then
      rev.branchPredictorInfoPack.biModeGlobalHistory &&& 0x7fff
        = BiMode.history (m.pathTo past rev.robId) &&& 0x7fff
    else m.globalHistory = BiMode.history (m.pathTo past rev.robId)

theorem Remembers.reachable (h : Remembers m past) : MachineReachable m := by
  induction h with
  | init => exact .init
  | cycle inp r f _ hl hr _ hf ih => exact .cycle inp r f ih hl hr hf

/-! ## What commit has retired -/

/-- A conditional branch that dispatch has passed on was predicted. -/
theorem OpInfo.Fetched.predicted {info : OpInfo} (h : info.Fetched)
    (hc : info.toIssue.branchPredictorInfoPack.conditionJump = true) :
    info.toIssue.branchPredictorInfoPack.predicted = true := by
  obtain ⟨q, hq, hsend⟩ := h
  unfold OpInfo.toIssue at hc ⊢
  split at hc
  · cases hc
  · rename_i hlsu
    rw [if_neg hlsu]
    have hpack := congrArg DecodeRenamePack.branchPredictorInfoPack hsend
    rw [hpack] at hc ⊢
    dsimp only at hc ⊢
    rw [FetchOpInfo.decoded, decode_pack] at hc ⊢
    exact hq.predicted hc

/-- The branch commit retires was predicted, if it is conditional. -/
theorem MachineReachable.predicted (hm : MachineReachable m) {fl : Flight} {item : RobItem}
    (hf : fl ∈ m.world.flight) (hitem : item = m.world.core.rob.buffer fl.info.robId.id)
    (hres : item.resolved = true) (hc : item.branchPredictorInfoPack.conditionJump = true) :
    item.branchPredictorInfoPack.predicted = true := by
  obtain ⟨g, hw⟩ := hm.world.holds
  obtain ⟨σ, htracks⟩ := hw.tracks hf
  rw [← hitem] at htracks
  simp only [RobItem.resolved, Bool.and_eq_true] at hres
  rw [htracks.pack hres.1.1] at hc ⊢
  exact ((machineInv_reachable hm).flight fl hf).predicted hc

/-- What commit queues. -/
def commitRequests (r : CycleResult) : List SyncRequest :=
  r.commit.updates.map fun u => .biModeUpdate u.pc u.jump u.hit u.pack

/-- **What the requests of commit do to the two histories** `p` has: nothing, or what the
conditional branch it retires asks for. -/
inductive CommitSync (p : BranchPredictorSet) (r : CycleResult) : Option RobItem → Prop where
  | none : (p.sync (commitRequests r)).biMode.globalHistory = p.biMode.globalHistory →
      (p.sync (commitRequests r)).biMode.globalHistoryRetired = p.biMode.globalHistoryRetired →
      outcomesOf r.commit.retired = [] → CommitSync p r none
  | some (item : RobItem) : (p.sync (commitRequests r)).biMode.globalHistory
        = (if item.late then p.biMode.globalHistoryRetired else p.biMode.globalHistory) →
      (p.sync (commitRequests r)).biMode.globalHistoryRetired
        = BiMode.shift p.biMode.globalHistoryRetired item.bruJump →
      outcomesOf r.commit.retired = [item.bruJump] → r.commit.feedback.flush = item.late →
      CommitSync p r (some item)

theorem commit_sync (hm : MachineReachable m) (hr : m.world.core.cycle inp.cycle = some r)
    (p : BranchPredictorSet) :
    CommitSync p r (m.world.core.closingBranch inp.cycle.commit.writeAck) := by
  obtain ⟨g, hw⟩ := hm.world.holds
  cases cycle_trained hw hr with
  | other hno hup hout =>
    have hnone : m.world.core.closingBranch inp.cycle.commit.writeAck = Option.none := by
      rw [Core.closingBranch, Option.filter_eq_none_iff]
      intro item hitem
      simp [hno item hitem]
    have hreq : commitRequests r = [] := by
      rw [commitRequests, hup]
      rfl
    rw [hnone]
    refine .none ?_ ?_ hout <;> rw [hreq] <;> rfl
  | branch fl item hf hitem hcl hres hup hout hflush =>
    have hb : item.bruOp = true := by
      simp only [RobItem.resolved, Bool.and_eq_true] at hres
      exact hres.2
    have hreq : commitRequests r = item.trains.map fun u =>
        .biModeUpdate u.pc u.jump u.hit u.pack := by
      rw [commitRequests, hup]
      rfl
    cases hc : item.branchPredictorInfoPack.conditionJump with
    | false =>
      have hnone : m.world.core.closingBranch inp.cycle.commit.writeAck = Option.none := by
        rw [Core.closingBranch, hcl]
        simp [hc]
      rw [hnone]
      have hout' : outcomesOf r.commit.retired = [] := by
        rw [hout, RobItem.outcome, hc]
        simp [CommitState.retired, outcomesOf]
      -- a jump that is not conditional trains no history
      refine .none ?_ ?_ hout' <;> rw [hreq, RobItem.trains] <;> split
      · simp [BranchPredictorSet.sync, BranchPredictorSet.apply, BiMode.update, hc]
      · rfl
      · simp [BranchPredictorSet.sync, BranchPredictorSet.apply, BiMode.update, hc]
      · rfl
    | true =>
      have hpred := hm.predicted hf hitem hres hc
      have hsome : m.world.core.closingBranch inp.cycle.commit.writeAck = Option.some item := by
        rw [Core.closingBranch, hcl]
        simp [hc, hres]
      have hsync : (p.sync (commitRequests r)).biMode
          = p.biMode.update item.pc item.bruJump item.hit item.branchPredictorInfoPack := by
        rw [hreq, RobItem.trains, hb, hpred]
        rfl
      rw [hsome]
      refine .some item ?_ ?_ ?_ ?_
      · rw [hsync]
        refine BiMode.update_globalHistory.trans ?_
        rw [hc, RobItem.late, hpred]
        rfl
      · rw [hsync]
        refine BiMode.update_globalHistoryRetired.trans ?_
        rw [hc, if_pos rfl]
      · rw [hout, RobItem.outcome, hb, hc]
        simp [CommitState.retired, outcomesOf]
      · rw [hflush]
        rfl

/-! ## A cycle -/

/-- The requests of the branch unit leave the history of commit alone. -/
theorem queued_retired (p : BranchPredictorSet) :
    (p.sync (m.queued inp.cycle r)).biMode.globalHistoryRetired
      = (p.sync (commitRequests r)).biMode.globalHistoryRetired := by
  rw [Machine.queued, BranchPredictorSet.sync_append, ← commitRequests]
  split
  · dsimp only
    split
    · simp only [BranchPredictorSet.sync, List.foldl_cons, List.foldl_nil,
        BranchPredictorSet.apply, BiMode.bruSpeculativeUpdate]
      split <;> rfl
    · rfl
  · rfl

/-- **The history of commit after a cycle** has what has retired shifted in. -/
theorem globalHistoryRetired_act (hm : MachineReachable m)
    (hr : m.world.core.cycle inp.cycle = some r) (hq : inp.requests = m.queued inp.cycle r)
    (hf : m.fetch.front.cycle (m.frontInput inp r) = some f)
    (hpast : m.globalHistoryRetired = BiMode.history past.outcomes) :
    (m.act inp r f).globalHistoryRetired
      = BiMode.history (past.act m inp.cycle r).outcomes := by
  obtain ⟨hnext, hsame⟩ := Front.cycle_retired hf
  have hreq : (m.frontInput inp r).requests = m.queued inp.cycle r := hq
  have hact : (m.act inp r f).globalHistoryRetired
      = (f.fetch1.predictors.sync (commitRequests r)).biMode.globalHistoryRetired := by
    refine hnext.trans ?_
    rw [hreq, queued_retired]
  have hold : f.fetch1.predictors.biMode.globalHistoryRetired = BiMode.history past.outcomes :=
    hsame.retired.trans hpast
  have hsync := commit_sync hm hr f.fetch1.predictors
  rw [hact, Past.act]
  dsimp only
  generalize m.world.core.closingBranch inp.cycle.commit.writeAck = closing at hsync
  cases hsync with
  | none _ hret hout => rw [hret, hout, List.append_nil, hold]
  | some item _ hret hout _ => rw [hret, hout, hold, BiMode.history_concat]

theorem Remembers.retired (h : Remembers m past) :
    m.globalHistoryRetired = BiMode.history past.outcomes := by
  induction h with
  | init => rfl
  | cycle inp r f hrun hl hr hq hf ih => exact globalHistoryRetired_act hrun.reachable hr hq hf ih

/-- **The histories after a flush of commit.** -/
theorem act_of_commit_flush (hq : inp.requests = m.queued inp.cycle r)
    (hf : m.fetch.front.cycle (m.frontInput inp r) = some f)
    (hflush : r.commit.feedback.flush = true) :
    (m.act inp r f).fetch.front.predictors = f.fetch1.predictors.sync (commitRequests r) := by
  have hnext := Front.cycle_flushed hf (.inl hflush)
  have hreq : (m.frontInput inp r).requests = commitRequests r := by
    refine hq.trans ?_
    rw [Machine.queued, hflush, commitRequests]
    exact List.append_nil _
  rw [hreq] at hnext
  exact hnext

/-- **The speculative history after a recovery of the branch unit.** -/
theorem act_of_bru_flush (hm : MachineReachable m) (hr : m.world.core.cycle inp.cycle = some r)
    (hq : inp.requests = m.queued inp.cycle r)
    (hf : m.fetch.front.cycle (m.frontInput inp r) = some f) (hflush : r.bru.flush = true)
    {rev : ReadregExecutePack} (hrev : inp.cycle.bru = some rev) :
    (m.act inp r f).globalHistory
      = if rev.branchPredictorInfoPack.conditionJump then
          BiMode.shift rev.branchPredictorInfoPack.biModeGlobalHistory
            (bruCompute m.world.core.csrFile rev).bruJump
        else m.globalHistory := by
  obtain ⟨g, hw⟩ := hm.world.holds
  obtain ⟨hsau, hbru⟩ := (Core.cycle_eq_some hr).feedbacks hw
  have hcommit : r.commit.feedback.flush = false := by
    rw [Bool.eq_false_iff]
    intro hc
    rw [hbru, hc, if_pos rfl] at hflush
    cases hflush
  have hfb : (bruFeedback (bruCompute m.world.core.csrFile rev)).flush = true := by
    rw [hbru, hcommit, if_neg Bool.false_ne_true, CycleInput.bruFb, hrev] at hflush
    exact hflush
  have hquiet : r.sau.squashesEqual rev.robId = false := by
    simp [FlushFeedback.squashesEqual, hsau]
  have hnext := Front.cycle_flushed hf (.inr hflush)
  have hsame := (Front.cycle_retired hf).2
  have hreq : (m.frontInput inp r).requests = commitRequests r
      ++ [.bruSpeculativeUpdate (bruCompute m.world.core.csrFile rev).bruJump false
        rev.branchPredictorInfoPack] := by
    refine hq.trans ?_
    rw [Machine.queued, hcommit, hrev]
    dsimp only
    rw [hquiet, hfb, bruCompute_pack]
    rfl
  have hglobal : (f.fetch1.predictors.sync (commitRequests r)).biMode.globalHistory
      = m.globalHistory := by
    have hsync := commit_sync hm hr f.fetch1.predictors
    generalize m.world.core.closingBranch inp.cycle.commit.writeAck = closing at hsync
    cases hsync with
    | none hg _ _ => exact hg.trans hsame.global
    | some item hg _ _ hlate =>
      -- a branch that makes commit restore the history makes it flush
      rw [← hlate, hcommit, if_neg Bool.false_ne_true] at hg
      exact hg.trans hsame.global
  rw [Machine.globalHistory, show (m.act inp r f).fetch.front = f.next from rfl, hnext, hreq,
    BranchPredictorSet.sync_append]
  simp only [BranchPredictorSet.sync, List.foldl_cons, List.foldl_nil, BranchPredictorSet.apply,
    BiMode.bruSpeculativeUpdate, Bool.not_false, Bool.and_true]
  split
  · rfl
  · exact hglobal

/-! ## Reconvergence -/

/-- **The speculative history reconverges exactly in the cycles whose recovery misses nothing.** -/
theorem reconverges_iff (h : Remembers m past)
    (hr : m.world.core.cycle inp.cycle = some r) (hq : inp.requests = m.queued inp.cycle r)
    (hf : m.fetch.front.cycle (m.frontInput inp r) = some f) :
    m.Reconverges past inp r f ↔ m.InStep past inp r := by
  have hm := h.reachable
  have hretired := globalHistoryRetired_act hm hr hq hf h.retired
  have hsame := (Front.cycle_retired hf).2
  have hcommit : r.commit.feedback.flush = true →
      ((m.act inp r f).globalHistory = (m.act inp r f).globalHistoryRetired ↔
        match m.world.core.closingBranch inp.cycle.commit.writeAck with
        | some item => BiMode.shift m.globalHistoryRetired item.bruJump = m.globalHistoryRetired
        | none => m.globalHistory = m.globalHistoryRetired) := by
    intro hflush
    have hnext := act_of_commit_flush hq hf hflush
    have hsync := commit_sync hm hr f.fetch1.predictors
    rw [Machine.globalHistory, Machine.globalHistoryRetired, hnext]
    generalize m.world.core.closingBranch inp.cycle.commit.writeAck = closing at hsync
    cases hsync with
    | none hg hret _ =>
      rw [hg, hret, hsame.global, hsame.retired]
      rfl
    | some item hg hret _ hlate =>
      rw [hg, hret, ← hlate, hflush, if_pos rfl, hsame.retired]
      exact eq_comm
  have hbru : r.bru.flush = true → ∀ rev, inp.cycle.bru = some rev →
      ((m.act inp r f).globalHistory = BiMode.history (m.pathTo past rev.robId
          ++ if rev.branchPredictorInfoPack.conditionJump then
            [(bruCompute m.world.core.csrFile rev).bruJump] else []) ↔
        if rev.branchPredictorInfoPack.conditionJump then
          rev.branchPredictorInfoPack.biModeGlobalHistory &&& 0x7fff
            = BiMode.history (m.pathTo past rev.robId) &&& 0x7fff
        else m.globalHistory = BiMode.history (m.pathTo past rev.robId)) := by
    intro hflush rev hrev
    rw [act_of_bru_flush hm hr hq hf hflush hrev]
    cases hc : rev.branchPredictorInfoPack.conditionJump with
    | true =>
      simp only [if_true]
      rw [BiMode.history_concat]
      exact BiMode.shift_eq_iff _
    | false =>
      simp only [Bool.false_eq_true, if_false]
      rw [List.append_nil]
  constructor
  · intro hrec
    exact ⟨fun hflush => (hcommit hflush).mp (hrec.flushed hflush).1,
      fun hflush rev hrev => (hbru hflush rev hrev).mp (hrec.recovered hflush rev hrev)⟩
  · intro hstep
    exact ⟨fun hflush => ⟨(hcommit hflush).mpr (hstep.flushed hflush), hretired⟩,
      fun hflush rev hrev => (hbru hflush rev hrev).mpr (hstep.recovered hflush rev hrev)⟩

/-! ## An exception behind which the history is not restored -/

/-- A cycle in which the bus delivers `words`, and rename is shown what is in its fifo. -/
def Machine.delivers (words : Option (Fin fetchWidth → Word)) (m : Machine) : Machine.Input :=
  { cycle := { commit := { decodeRenameFifo := m.decodeRename.map FetchOpInfo.decoded } }
    instructionValue := words }

/-- A cycle in which the branch unit is given a branch in flight, and the ALU hands the result of
the oldest of its instructions to commit. -/
def Machine.executes (m : Machine) : Machine.Input :=
  let branch := m.world.flight.find? fun f => f.info.opUnit == .bru
  let other := m.world.flight.find? fun f => f.info.opUnit == .alu
  { cycle := {
      commit := {
        decodeRenameFifo := m.decodeRename.map FetchOpInfo.decoded
        executeCommitPort := (other.map fun f => aluCompute f.info.operands).toList }
      bru := branch.map fun f => f.info.operands } }

theorem FetchOpInfo.Recorded.fetchOk {q : FetchOpInfo} (h : q.Recorded) :
    q.toFetch2DecodePack.FetchOk := by
  refine ⟨h.noCheckpoint, fun hp => ?_⟩
  have hlegal := (h.legal hp).2
  simpa [Fetch2DecodePack.legalBranch] using hlegal

theorem MachineReachable.decoded (hm : MachineReachable m) :
    ∀ p ∈ m.decodeRename.map FetchOpInfo.decoded, ∃ rev : Fetch2DecodePack,
      rev.FetchOk ∧ p = decode rev := by
  intro p hp
  obtain ⟨q, hq, rfl⟩ := List.mem_map.mp hp
  exact ⟨_, ((machineInv_reachable hm).fifos q (List.mem_append_right _ hq)).fetchOk, rfl⟩

theorem Machine.delivers_legal (hm : MachineReachable m) (words : Option (Fin fetchWidth → Word)) :
    m.Legal (Machine.delivers words m) where
  cycle := { idle_legal m.world with
    decoded := hm.decoded }
  fifo := rfl
  operands := by simp [Machine.delivers]
  results := by simp [Machine.delivers]

theorem Machine.executes_legal (hm : MachineReachable m) : m.Legal m.executes := by
  have hbranch : ∀ rev, m.executes.cycle.bru = some rev → ∃ f ∈ m.world.flight,
      rev = f.info.operands ∧ f.info.opUnit = .bru := by
    intro rev hrev
    obtain ⟨f, hf, rfl⟩ := Option.map_eq_some_iff.mp hrev
    exact ⟨f, List.mem_of_find?_eq_some hf, rfl, by simpa using List.find?_some hf⟩
  have hother : ∀ rev ∈ m.executes.cycle.commit.executeCommitPort, ∃ f ∈ m.world.flight,
      rev = aluCompute f.info.operands ∧ f.info.opUnit = .alu := by
    intro rev hrev
    obtain ⟨f, hf, rfl⟩ := Option.map_eq_some_iff.mp (Option.mem_toList.mp hrev)
    exact ⟨f, List.mem_of_find?_eq_some hf, rfl, by simpa using List.find?_some hf⟩
  refine ⟨{ idle_legal m.world with decoded := hm.decoded, results := ?_, bru := ?_ }, rfl, ?_, ?_⟩
  · intro rev hrev _
    obtain ⟨f, hf, rfl, -⟩ := hother rev hrev
    exact ⟨f, hf, Pipe.resultOf_alu f.info⟩
  · intro rev hrev
    obtain ⟨f, hf, rfl, hu⟩ := hbranch rev hrev
    exact ⟨f, hf, operandsOf_operands f.info, (operandsOf_operands f.info).bru.mpr hu⟩
  · intro rev hrev
    obtain ⟨f, hf, rfl, -⟩ := hbranch rev hrev
    exact ⟨f, hf, rfl⟩
  · intro rev hrev _ hu
    obtain ⟨f, hf, rfl, halu⟩ := hother rev hrev
    rw [(Pipe.resultOf_alu f.info).bru, halu] at hu
    cases hu

/-- A cycle in which the predictors get what is queued for them. -/
def Machine.remember (s : Machine × Past) (inp : Machine.Input) : Option (Machine × Past) :=
  (s.1.world.core.cycle inp.cycle).bind fun r =>
    (s.1.fetch.front.cycle (s.1.frontInput { inp with requests := s.1.queued inp.cycle r } r)).map
      fun f => (s.1.act { inp with requests := s.1.queued inp.cycle r } r f,
        s.2.act s.1 inp.cycle r)

/-- The machine and its past after a script. -/
def Machine.replay : List (Machine → Machine.Input) → Machine × Past → Option (Machine × Past)
  | [], s => some s
  | inp :: script, s => (Machine.remember s (inp s.1)).bind (Machine.replay script)

theorem Machine.remember_eq_some {s s' : Machine × Past} {inp : Machine.Input}
    (h : Machine.remember s inp = some s') : ∃ i r f, i.cycle = inp.cycle
      ∧ (s.1.Legal inp → s.1.Legal i) ∧ s.1.world.core.cycle i.cycle = some r
      ∧ i.requests = s.1.queued i.cycle r
      ∧ s.1.fetch.front.cycle (s.1.frontInput i r) = some f
      ∧ s' = (s.1.act i r f, s.2.act s.1 i.cycle r) := by
  obtain ⟨r, hr, h⟩ := Option.bind_eq_some_iff.mp h
  obtain ⟨f, hf, rfl⟩ := Option.map_eq_some_iff.mp h
  exact ⟨{ inp with requests := s.1.queued inp.cycle r }, r, f, rfl,
    fun hl => ⟨hl.cycle, hl.fifo, hl.operands, hl.results⟩, hr, rfl, hf, rfl⟩

theorem Remembers.replay (script : List (Machine → Machine.Input))
    (hlegal : ∀ inp ∈ script, ∀ m, MachineReachable m → m.Legal (inp m)) {s s' : Machine × Past}
    (h : Remembers s.1 s.2) (hs : Machine.replay script s = some s') : Remembers s'.1 s'.2 := by
  induction script generalizing s with
  | nil =>
    cases hs
    exact h
  | cons inp script ih =>
    obtain ⟨s₁, h₁, hs⟩ := Option.bind_eq_some_iff.mp hs
    obtain ⟨i, r, f, -, hl, hr, hq, hf, rfl⟩ := Machine.remember_eq_some h₁
    have hl := hl (hlegal inp (List.mem_cons_self ..) s.1 h.reachable)
    exact ih (fun i hi => hlegal i (List.mem_cons_of_mem _ hi)) (.cycle i r f h hl hr hq hf) hs

/-- An instruction that does not exist, and `beq x0, x0, +8` behind it. -/
def faultThenBranch (i : Fin fetchWidth) : Word :=
  if i.val = 0 then 0 else if i.val = 1 then 0x00000463 else 0x00000013

/-- They are fetched, decoded and renamed. -/
def renamesBranch : List (Machine → Machine.Input) :=
  [Machine.delivers (some faultThenBranch), Machine.delivers none, Machine.delivers none,
    Machine.delivers none]

/-- The machine in which the branch is about to be recovered. -/
def branchRenamed : Machine × Past :=
  (Machine.replay renamesBranch (Machine.init, ⟨[], fun _ => false⟩)).getD
    (Machine.init, ⟨[], fun _ => false⟩)

/-- The machine in which the exception is about to be taken. -/
def faultFinished : Machine × Past :=
  (Machine.remember branchRenamed branchRenamed.1.executes).getD branchRenamed

theorem branchRenamed_remembers : Remembers branchRenamed.1 branchRenamed.2 := by
  obtain ⟨s, hs⟩ : ∃ s, Machine.replay renamesBranch (Machine.init, ⟨[], fun _ => false⟩) = some s :=
    Option.isSome_iff_exists.mp (by decide +kernel)
  rw [branchRenamed, hs, Option.getD_some]
  refine Remembers.replay renamesBranch (fun inp hinp m hm => ?_) .init hs
  simp only [renamesBranch, List.mem_cons, List.not_mem_nil, or_false] at hinp
  rcases hinp with rfl | rfl | rfl | rfl <;> exact Machine.delivers_legal hm _

theorem faultFinished_remembers : Remembers faultFinished.1 faultFinished.2 := by
  obtain ⟨s, hs⟩ : ∃ s, Machine.remember branchRenamed branchRenamed.1.executes = some s :=
    Option.isSome_iff_exists.mp (by decide +kernel)
  rw [faultFinished, hs, Option.getD_some]
  obtain ⟨i, r, f, -, hl, hr, hq, hf, rfl⟩ := Machine.remember_eq_some hs
  exact .cycle i r f branchRenamed_remembers
    (hl (Machine.executes_legal branchRenamed_remembers.reachable)) hr hq hf

/-- The recovery of the branch misses nothing: no branch is older. -/
theorem reconverges_branchRenamed : ∃ inp r f, branchRenamed.1.Legal inp
    ∧ branchRenamed.1.world.core.cycle inp.cycle = some r ∧ r.bru.flush = true
    ∧ branchRenamed.1.Reconverges branchRenamed.2 inp r f := by
  obtain ⟨s, hs⟩ : ∃ s, Machine.remember branchRenamed branchRenamed.1.executes = some s :=
    Option.isSome_iff_exists.mp (by decide +kernel)
  obtain ⟨i, r, f, hi, hl, hr, hq, hf, -⟩ := Machine.remember_eq_some hs
  have hflush : (branchRenamed.1.world.core.cycle branchRenamed.1.executes.cycle).map
      (fun r => (r.commit.feedback.flush, r.bru.flush)) = some (false, true) := by
    decide +kernel
  rw [← hi, hr, Option.map_some, Option.some.injEq, Prod.mk.injEq] at hflush
  have hrecorded : branchRenamed.1.executes.cycle.bru.map (fun rev =>
      (rev.branchPredictorInfoPack.conditionJump,
        rev.branchPredictorInfoPack.biModeGlobalHistory,
        branchRenamed.1.pathTo branchRenamed.2 rev.robId)) = some (true, 0, []) := by
    decide +kernel
  refine ⟨i, r, f, hl (Machine.executes_legal branchRenamed_remembers.reachable), hr, hflush.2,
    (reconverges_iff branchRenamed_remembers hr hq hf).mpr ⟨fun h => ?_, fun _ rev hrev => ?_⟩⟩
  · rw [hflush.1] at h
    cases h
  · rw [← hi, hrev, Option.map_some, Option.some.injEq, Prod.mk.injEq, Prod.mk.injEq] at hrecorded
    obtain ⟨hc, hh, hpath⟩ := hrecorded
    rw [hc, if_pos rfl, hh, hpath]
    rfl

/-- **The exception empties the pipeline, and the outcome of the squashed branch stays in the
speculative history.** -/
theorem faultFinished_diverges : Remembers faultFinished.1 faultFinished.2 ∧ ∃ inp r f,
    faultFinished.1.Legal inp ∧ faultFinished.1.world.core.cycle inp.cycle = some r
    ∧ inp.requests = faultFinished.1.queued inp.cycle r
    ∧ faultFinished.1.fetch.front.cycle (faultFinished.1.frontInput inp r) = some f
    ∧ r.commit.feedback.flush = true
    ∧ ¬ faultFinished.1.Reconverges faultFinished.2 inp r f := by
  refine ⟨faultFinished_remembers, ?_⟩
  obtain ⟨s, hs⟩ : ∃ s, Machine.remember faultFinished (Machine.delivers none faultFinished.1)
      = some s := Option.isSome_iff_exists.mp (by decide +kernel)
  have hregisters : (Machine.remember faultFinished (Machine.delivers none faultFinished.1)).map
      (fun s => (s.1.globalHistory, s.1.globalHistoryRetired)) = some (1, 0) := by
    decide +kernel
  rw [hs, Option.map_some, Option.some.injEq, Prod.mk.injEq] at hregisters
  obtain ⟨i, r, f, hi, hl, hr, hq, hf, rfl⟩ := Machine.remember_eq_some hs
  have hflush : (faultFinished.1.world.core.cycle (Machine.delivers none faultFinished.1).cycle).map
      (fun r => r.commit.feedback.flush) = some true := by
    decide +kernel
  rw [← hi, hr, Option.map_some, Option.some.injEq] at hflush
  refine ⟨i, r, f, hl (Machine.delivers_legal faultFinished_remembers.reachable _), hr, hq, hf,
    hflush, fun hrec => ?_⟩
  have hsame := (hrec.flushed hflush).1
  rw [hregisters.1, hregisters.2] at hsame
  exact absurd hsame (by decide)

end DreamCore
