import DreamCore.Backend.Feedback
import DreamCore.Backend.DispatchTurn
import DreamCore.Backend.RenameTurns
import DreamCore.Pipeline.Execute

/-!
# From rename to the issue queues

The core joined with the stages between rename and the units: the rename port,
dispatch with its hold registers and ports, and the two issue stages. The stall of
dispatch is no longer an input here, and a unit only ever works on an instruction
that has left its issue queue.

Two records go along that no stage sees: which instructions in flight have issued
for good, and the instructions that have retired, in program order.
-/

namespace DreamCore

open Ring

/-- The core, what is between rename and the units, and the history of the run. -/
structure Pipe where
  world : World
  /-- `rename_dispatch_port`. -/
  renamePort : List OpInfo
  dispatch : Dispatch
  /-- The integer issue stage, and the one of the LSU. -/
  stage : Bool → IssueStage
  /-- The instructions in flight that have left their issue queue to be executed. -/
  issued : List Ptr
  /-- The instructions that have retired, oldest first. -/
  retired : List OpInfo

/-- The size of the issue queue of a class. -/
def issueQueueSize : Bool → Nat
  | false => integerIssueQueueSize
  | true => lsuIssueQueueSize

/-- What the rest of the machine brings into a cycle. -/
structure PipeInput where
  cycle : CycleInput := {}
  choice : Bool → IssueChoice := fun _ => {}

/-- The port of dispatch as the issue stage of a class reads it. -/
def Dispatch.issuePort (d : Dispatch) : Bool → List OpInfo
  | false => d.integerPort
  | true => d.lsuPort

namespace Pipe

/-- After reset. -/
def init : Pipe := ⟨World.init, [], {}, fun _ => {}, [], []⟩

/-- The instructions in flight, oldest first. -/
def infos (p : Pipe) : List OpInfo := p.world.flight.map Flight.info

/-- Every instruction that has been renamed and not squashed, in program order. -/
def program (p : Pipe) : List OpInfo := p.retired ++ p.infos

/-- What dispatch sees in a cycle that comes to `r` in the core. -/
def dispatchInput (p : Pipe) (r : CycleResult) : DispatchInput where
  renamePort := p.renamePort
  integerStall := (p.stage false).busy
  lsuStall := (p.stage true).busy
  bru := r.bru
  sau := r.sau
  commit := r.commit.feedback
  storeBufferEmpty :=
    Fifo.customerIsEmpty p.world.core.storeBuffer.ring r.next.storeBuffer.ring

/-- The instructions that issue for good. -/
def leaving (p : Pipe) (inp : PipeInput) : List Ptr :=
  (p.stage false).left (issueQueueSize false) (inp.choice false)
    ++ (p.stage true).left (issueQueueSize true) (inp.choice true)

end Pipe

/-- What a cycle leaves of the instructions in flight. -/
def World.survivors (w : World) (r : CycleResult) : List Flight :=
  if r.commit.feedback.flush then []
  else (w.flight.drop r.commit.retired.length).filter fun f => !r.bru.squashes f.info.robId

theorem mem_of_survivors {w : World} {r : CycleResult} {fl : Flight}
    (h : fl ∈ w.survivors r) : fl ∈ w.flight := by
  unfold World.survivors at h
  split at h
  · cases h
  · exact List.mem_of_mem_drop (List.mem_filter.mp h).1

/-- What a cycle can be asked to do. An operation reaches a unit after its entry has left the
issue queue; the second part of a store is the one that finishes it. -/
structure PipeInput.Legal (p : Pipe) (inp : PipeInput) : Prop where
  cycle : inp.cycle.Legal p.world
  branch : ∀ rev, inp.cycle.bru = some rev → rev.robId ∈ p.issued
  finished : ∀ rev ∈ inp.cycle.commit.executeCommitPort, rev.enable = true → rev.lastUop = true →
    rev.robId ∈ p.issued

namespace Pipe

/-- After a cycle that has come to `r` in the core and to `d` in dispatch. -/
def act (p : Pipe) (inp : PipeInput) (r : CycleResult) (d : Dispatch) : Pipe where
  world := p.world.act r
  renamePort := r.rename.port.getD p.renamePort
  dispatch := d
  stage := fun c => (p.stage c).run (issueQueueSize c) (inp.choice c) (p.dispatch.issuePort c)
    r.bru r.sau r.commit.feedback.flush
  issued := (p.issued ++ p.leaving inp).filter fun id =>
    (p.world.survivors r).any fun f => f.info.robId == id
  retired := p.retired ++ (p.world.flight.take r.commit.retired.length).map Flight.info

/-- One cycle: the core, dispatch, and the stall dispatch gives to rename. -/
structure Cycle (p : Pipe) (inp : PipeInput) (r : CycleResult) (d : Dispatch) : Prop where
  legal : inp.Legal p
  core : p.world.core.cycle inp.cycle = some r
  dispatch : p.dispatch.run (p.dispatchInput r) = some d
  stall : inp.cycle.dispatchStall = p.dispatch.stall (p.dispatchInput r)

/-- **The states that runs from reset reach**, when every cycle of the run meets `P`. -/
inductive Run (P : Pipe → PipeInput → CycleResult → Prop) : Pipe → Prop where
  | init : Run P Pipe.init
  | cycle {p : Pipe} (inp : PipeInput) (r : CycleResult) (d : Dispatch) :
      Run P p → p.Cycle inp r d → P p inp r → Run P (p.act inp r d)

/-- A state some run reaches from reset. -/
def Reachable (p : Pipe) : Prop := Run (fun _ _ _ => True) p

/-- The core of a run is a run of the core. -/
theorem Run.world {P : Pipe → PipeInput → CycleResult → Prop} {p : Pipe} (h : Run P p) :
    DreamCore.Reachable p.world := by
  induction h with
  | init => exact .init
  | cycle inp r d _ hc _ ih => exact .cycle inp.cycle r ih hc.legal.cycle trivial hc.core

theorem Run.reachable {P : Pipe → PipeInput → CycleResult → Prop} {p : Pipe} (h : Run P p) :
    p.Reachable := by
  induction h with
  | init => exact .init
  | cycle inp r d _ hc _ ih => exact .cycle inp r d ih hc trivial

/-! ## Scripted runs -/

/-- One cycle, if it does not abort and the stall of dispatch is the one the input says. -/
def step (p : Pipe) (inp : PipeInput) : Option Pipe := do
  let r ← p.world.core.cycle inp.cycle
  let d ← p.dispatch.run (p.dispatchInput r)
  guard (inp.cycle.dispatchStall = p.dispatch.stall (p.dispatchInput r))
  return p.act inp r d

theorem step_eq_some {p p' : Pipe} {inp : PipeInput} (hl : inp.Legal p)
    (h : p.step inp = some p') : ∃ r d, p.Cycle inp r d ∧ p' = p.act inp r d := by
  simp only [step, Option.bind_eq_bind, Option.bind_eq_some_iff] at h
  obtain ⟨r, hr, d, hd, _, hg, h⟩ := h
  cases h
  exact ⟨r, d, ⟨hl, hr, hd, by simpa [guard] using hg⟩, rfl⟩

/-- The state after a script. What a cycle is given may look at the state it starts from. -/
def play : List (Pipe → PipeInput) → Pipe → Option Pipe
  | [], p => some p
  | inp :: script, p => (p.step (inp p)).bind (play script)

/-- **A script of legal inputs is a run.** -/
theorem Run.play {P : Pipe → PipeInput → CycleResult → Prop} (script : List (Pipe → PipeInput))
    (hlegal : ∀ inp ∈ script, ∀ p, (inp p).Legal p ∧ ∀ r, P p (inp p) r) {p p' : Pipe}
    (hp : Run P p) (h : Pipe.play script p = some p') : Run P p' := by
  induction script generalizing p with
  | nil =>
    cases h
    exact hp
  | cons inp script ih =>
    obtain ⟨p₁, h₁, h⟩ := Option.bind_eq_some_iff.mp h
    obtain ⟨hl, hP⟩ := hlegal inp (List.mem_cons_self ..) p
    obtain ⟨r, d, hc, rfl⟩ := step_eq_some hl h₁
    exact ih (fun i hi => hlegal i (List.mem_cons_of_mem _ hi)) (.cycle _ r d hp hc (hP r)) h

/-- A cycle in which the decoder offers `packs` to rename. -/
def fetches (packs : List Fetch2DecodePack) (_ : Pipe) : PipeInput := { cycle := fetchPacks packs }

/-- A cycle in which all that is in an issue queue leaves it. -/
def issues (_ : Pipe) : PipeInput :=
  { choice := fun _ => { select := fun _ => true, confirm := fun _ => true } }

/-- A cycle in which the ALU hands the results of all its instructions that have issued and are
not finished to commit. -/
def computes (p : Pipe) : PipeInput :=
  let ready := p.world.flight.filter fun f =>
    decide (f.info.robId ∈ p.issued) && f.info.opUnit == .alu
      && !(p.world.core.rob.buffer f.info.robId.id).finish
  { cycle := { commit := { executeCommitPort := ready.map fun f => aluCompute f.info.operands } } }

theorem fetches_legal {packs : List Fetch2DecodePack} (h : ∀ q ∈ packs, q.FetchOk) (p : Pipe) :
    (fetches packs p).Legal p :=
  ⟨fetchPacks_legal h p.world, (fun _ h => by cases h),
    (fun _ h => by simp [fetches, fetchPacks] at h)⟩

theorem issues_legal (p : Pipe) : (issues p).Legal p :=
  ⟨idle_legal p.world, (fun _ h => by cases h), (fun _ h => by simp [issues] at h)⟩

/-- The ALU copies what it does not compute. -/
theorem aluOutcome_copies (rev : ReadregExecutePack) (op : AluOp) (send : ExecuteWbPack) :
    (aluOutcome rev op send).robId = send.robId
      ∧ (aluOutcome rev op send).branchPredictorInfoPack = send.branchPredictorInfoPack
      ∧ (aluOutcome rev op send).opUnit = send.opUnit := by
  cases op <;> exact ⟨rfl, rfl, rfl⟩

theorem resultOf_alu (info : OpInfo) : ResultOf info (aluCompute info.operands) := by
  have hcopy := resultOf_operands info
  unfold aluCompute
  dsimp only
  split
  · split
    · rename_i op _ _
      obtain ⟨hid, hpack, hunit⟩ := aluOutcome_copies info.operands op (.copy info.operands)
      exact ⟨hid.trans hcopy.robId, hpack.trans hcopy.pack, by rw [hunit]; exact hcopy.bru⟩
    · exact hcopy
    · exact ⟨hcopy.robId, hcopy.pack, hcopy.bru⟩
  · exact hcopy

theorem computes_legal (p : Pipe) : (computes p).Legal p := by
  have hport : ∀ rev ∈ (computes p).cycle.commit.executeCommitPort, ∃ f ∈ p.world.flight,
      rev = aluCompute f.info.operands ∧ f.info.robId ∈ p.issued := by
    intro rev hrev
    obtain ⟨f, hf, rfl⟩ := List.mem_map.mp hrev
    obtain ⟨hmem, hc⟩ := List.mem_filter.mp hf
    rw [Bool.and_eq_true, Bool.and_eq_true, decide_eq_true_eq] at hc
    exact ⟨f, hmem, rfl, hc.1.1⟩
  refine ⟨{ idle_legal p.world with decoded := by simp [computes], results := ?_ },
    (fun _ h => by cases h), fun rev hrev _ _ => ?_⟩
  · intro rev hrev _
    obtain ⟨f, hf, rfl, -⟩ := hport rev hrev
    exact ⟨f, hf, resultOf_alu f.info⟩
  · obtain ⟨f, -, rfl, hissued⟩ := hport rev hrev
    rw [(resultOf_alu f.info).robId]
    exact hissued

end Pipe

end DreamCore
