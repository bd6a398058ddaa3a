import DreamCore.Pipeline.Cycle
import DreamCore.Pipeline.Decode
import DreamCore.Pipeline.Dispatch

/-!
# The core in an arbitrary pipeline

A `World` is the shared components together with two records of the past that no
stage can see: the instructions in flight, each with the components as they were
right after it was renamed, and the register ids commit has released so far.

A step is one cycle under any input the rest of the pipeline can produce.
`CycleInput.Legal` says what that is: the decoder's output at the front, and, for
the units and for commit, work that belongs to instructions still in flight and
carries what dispatch passed on. Nothing is said about order or timing.
-/

namespace DreamCore

open Ring

/-- An instruction in flight: what rename sent to dispatch, and the record of the moment. -/
structure Flight where
  info : OpInfo
  /-- The components right after this instruction was renamed. -/
  after : Core
  /-- How many ids commit had released by then. -/
  releasedBefore : Nat

/-- The core, and the history of its run. -/
structure World where
  core : Core
  /-- The instructions in flight, oldest first. -/
  flight : List Flight
  /-- Every physical register id commit has given back to the free list. -/
  released : List Nat

namespace World

/-- The world after reset. -/
def init : World := ⟨Core.reset, [], []⟩

end World

/-- What fetch guarantees about the pack it attaches to an instruction: only rename hands out
checkpoints, and only a legal branch-unit instruction is ever predicted. -/
structure Fetch2DecodePack.FetchOk (rev : Fetch2DecodePack) : Prop where
  noCheckpoint : rev.branchPredictorInfoPack.checkpointIdValid = false
  predicted : rev.branchPredictorInfoPack.predicted = true →
    (decode rev).valid = true ∧ (decode rev).opUnit = .bru

/-- `rev` is a result of the instruction rename sent out as `info`: the fields commit reads
that no unit computes are the ones dispatch passed on. -/
structure ResultOf (info : OpInfo) (rev : ExecuteWbPack) : Prop where
  robId : rev.robId = info.robId
  pack : rev.branchPredictorInfoPack = info.toIssue.branchPredictorInfoPack
  bru : rev.opUnit = .bru ↔ info.opUnit = .bru

/-- `rev` is the instruction `info`, or one part of it, on its way into a unit. -/
structure OperandsOf (info : OpInfo) (rev : ReadregExecutePack) : Prop where
  robId : rev.robId = info.robId
  pack : rev.branchPredictorInfoPack = info.toIssue.branchPredictorInfoPack
  bru : rev.opUnit = .bru ↔ info.opUnit = .bru
  lsu : rev.opUnit.isLsu = info.opUnit.isLsu

/-- What a cycle can be asked to do in world `w`. -/
structure CycleInput.Legal (w : World) (inp : CycleInput) : Prop where
  decoded : ∀ p ∈ inp.commit.decodeRenameFifo, ∃ rev : Fetch2DecodePack, rev.FetchOk ∧ p = decode rev
  results : ∀ rev ∈ inp.commit.executeCommitPort, rev.enable = true →
    ∃ f ∈ w.flight, ResultOf f.info rev
  bru : ∀ rev, inp.bru = some rev → ∃ f ∈ w.flight, OperandsOf f.info rev ∧ rev.opUnit = .bru
  sau : ∀ rev, inp.sau = some rev → ∃ f ∈ w.flight, OperandsOf f.info rev ∧ rev.opUnit = .sau
  sdu : ∀ rev, inp.sdu = some rev → ∃ f ∈ w.flight, OperandsOf f.info rev ∧ rev.opUnit = .sdu
  lu : ∀ rev, inp.lu = some rev → ∃ f ∈ w.flight, OperandsOf f.info rev ∧ rev.opUnit = .lu

/-- The entries this cycle retired. The queue also lists an entry that took an exception. -/
def CommitState.retired (c : CommitState) : List (Nat × RobItem) :=
  if c.feedback.hasException then c.retireQueue.dropLast else c.retireQueue

/-- The ids the retirements of a cycle give back. -/
def releasedIds (retired : List (Nat × RobItem)) : List Nat :=
  retired.filterMap fun e => if e.2.oldPhyRegIdValid then some e.2.oldPhyRegId else none

/-- The flight list after a cycle: what retired leaves at the front, what a flush squashed
leaves at the back, what was renamed joins. -/
def World.flightAfter (w : World) (r : CycleResult) (released : Nat) : List Flight :=
  if r.commit.feedback.flush then []
  else
    ((w.flight.drop r.commit.retired.length).filter fun f =>
      !r.bru.squashes f.info.robId && !r.sau.squashesEqual f.info.robId)
    ++ r.rename.turns.map fun t => ⟨t.1, t.2, released⟩

/-- The world after a cycle with result `r`. -/
def World.act (w : World) (r : CycleResult) : World :=
  let released := w.released ++ releasedIds r.commit.retired
  ⟨r.next, w.flightAfter r released.length, released⟩

/-- **The worlds that runs from reset reach**, when every cycle of the run meets `P`. A cycle is
some legal input, and a run of the code that meets no failing `verify`. -/
inductive Run (P : World → CycleInput → Prop) : World → Prop where
  | init : Run P World.init
  | cycle {w : World} (inp : CycleInput) (r : CycleResult) :
      Run P w → inp.Legal w → P w inp → w.core.cycle inp = some r → Run P (w.act r)

/-- A world some run of the core reaches from reset. -/
def Reachable (w : World) : Prop := Run (fun _ _ => True) w

/-- A run that meets a condition is a run. -/
theorem Run.reachable {P : World → CycleInput → Prop} {w : World} (h : Run P w) : Reachable w := by
  induction h with
  | init => exact .init
  | cycle inp r _ hl _ hr ih => exact .cycle inp r ih hl trivial hr

/-! ## Scripted runs

A run on fixed inputs, for an example or a counterexample. What a cycle is given may look at
the world it starts from, so that a script can hand back results for the instructions it finds
in flight.
-/

/-- The world after a script, if every cycle meets `P` and none aborts. -/
def World.play (P : World → CycleInput → Bool) :
    List (World → CycleInput) → World → Option World
  | [], w => some w
  | inp :: script, w =>
      if P w (inp w) then (w.core.cycle (inp w)).bind fun r => World.play P script (w.act r)
      else none

/-- **A script of legal inputs is a run.** -/
theorem Run.play {P : World → CycleInput → Bool} {Q : World → CycleInput → Prop}
    (script : List (World → CycleInput)) (hPQ : ∀ w inp, P w inp = true → Q w inp)
    (hlegal : ∀ inp ∈ script, ∀ w, (inp w).Legal w) {w w' : World} (hw : Run Q w)
    (h : w.play P script = some w') : Run Q w' := by
  induction script generalizing w with
  | nil => cases h; exact hw
  | cons inp script ih =>
    unfold World.play at h
    split at h
    · rename_i hp
      obtain ⟨r, hr, h⟩ := Option.bind_eq_some_iff.mp h
      exact ih (fun i hi => hlegal i (List.mem_cons_of_mem _ hi))
        (.cycle _ r hw (hlegal inp (List.mem_cons_self ..) w) (hPQ _ _ hp) hr) h
    · cases h

/-- The world a script ends in. -/
def World.playFrom (w : World) (script : List (World → CycleInput)) : World :=
  (w.play (fun _ _ => true) script).getD w

/-- Restricting a script that goes through does not change where it ends. -/
theorem World.play_relax {P : World → CycleInput → Bool} {script : List (World → CycleInput)}
    {w w' : World} (h : w.play P script = some w') : w.play (fun _ _ => true) script = some w' := by
  induction script generalizing w with
  | nil => exact h
  | cons inp script ih =>
    unfold World.play at h ⊢
    split at h
    · obtain ⟨r, hr, h⟩ := Option.bind_eq_some_iff.mp h
      rw [if_pos rfl, hr]
      exact ih h
    · cases h

theorem World.play_eq_some {P : World → CycleInput → Bool} {script : List (World → CycleInput)}
    {w : World} (h : (w.play P script).isSome = true) :
    w.play P script = some (w.playFrom script) := by
  obtain ⟨w', hw'⟩ := Option.isSome_iff_exists.mp h
  rw [World.playFrom, World.play_relax hw', hw']
  rfl

/-- A cycle in which the decoder offers `packs` to rename. -/
def fetchPacks (packs : List Fetch2DecodePack) : CycleInput :=
  { commit := { decodeRenameFifo := packs.map decode } }

/-- An instruction that fetch does not predict. -/
def plainPack (pc value : Word) : Fetch2DecodePack := { enable := true, pc := pc, value := value }

theorem plainPack_ok (pc value : Word) : (plainPack pc value).FetchOk :=
  ⟨rfl, fun hc => by cases hc⟩

theorem fetchPacks_legal {packs : List Fetch2DecodePack} (h : ∀ p ∈ packs, p.FetchOk) (w : World) :
    (fetchPacks packs).Legal w where
  decoded := by
    intro p hp
    obtain ⟨rev, hrev, rfl⟩ := List.mem_map.mp hp
    exact ⟨rev, h rev hrev, rfl⟩
  results := by simp [fetchPacks]
  bru := by simp [fetchPacks]
  sau := by simp [fetchPacks]
  sdu := by simp [fetchPacks]
  lu := by simp [fetchPacks]

/-- The pack a unit starts from for instruction `info`. -/
def OpInfo.operands (info : OpInfo) : ReadregExecutePack := { toOpInfo := info.toIssue }

/-- A cycle in which the oldest instruction in flight hands `result` to commit. -/
def finishOldest (result : ExecuteWbPack → ExecuteWbPack) (w : World) : CycleInput :=
  match w.flight with
  | [] => {}
  | f :: _ => { commit := { executeCommitPort := [result (.copy f.info.operands)] } }

/-- A cycle with no input. -/
theorem idle_legal (w : World) : CycleInput.Legal w {} where
  decoded := by simp
  results := by simp
  bru := by simp
  sau := by simp
  sdu := by simp
  lu := by simp

/-- **A result built on what dispatch passed on** is a result of its instruction. -/
theorem resultOf_operands (info : OpInfo) : ResultOf info (.copy info.operands) := by
  refine ⟨?_, rfl, ?_⟩
  · simp only [ExecuteWbPack.copy, OpInfo.operands, OpInfo.toIssue]
    split <;> rfl
  · simp only [ExecuteWbPack.copy, OpInfo.operands, OpInfo.toIssue]
    split <;> rfl

theorem operandsOf_operands (info : OpInfo) : OperandsOf info info.operands := by
  refine ⟨?_, rfl, ?_, ?_⟩ <;> simp only [OpInfo.operands, OpInfo.toIssue] <;> split <;> rfl

theorem finishOldest_legal (result : ExecuteWbPack → ExecuteWbPack)
    (h : ∀ p, (result p).robId = p.robId
      ∧ (result p).branchPredictorInfoPack = p.branchPredictorInfoPack
      ∧ (result p).opUnit = p.opUnit) (w : World) : (finishOldest result w).Legal w := by
  unfold finishOldest
  split
  · exact idle_legal w
  · rename_i f fl hf
    refine { idle_legal w with decoded := by simp, results := ?_ }
    intro rev hrev _
    simp only [List.mem_singleton] at hrev
    subst hrev
    obtain ⟨h₁, h₂, h₃⟩ := h (.copy f.info.operands)
    have hres := resultOf_operands f.info
    exact ⟨f, by simp [hf], h₁.trans hres.robId, h₂.trans hres.pack, by rw [h₃]; exact hres.bru⟩

end DreamCore
