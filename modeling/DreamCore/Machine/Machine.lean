import DreamCore.Backend.Outcome
import DreamCore.Backend.Steering
import DreamCore.Frontend.Stream

/-!
# The core from fetch to commit

Fetch and the core are joined by two fifos and by what flows back: the flushes, the
end of a wait for a jump, and the `idle` signals a `fence.i` is held for. What is
left open is what no stage of either decides: what the bus delivers, and which
instructions the units are given and when.

Of the paths in between only the one of the branch unit is kept. What it computes in
one cycle is what commit finds on its port in the next, and that is what ties the
flush of a branch to the result commit sees.
-/

namespace DreamCore

open Ring

/-- The registers, and the histories of the two halves. -/
structure Machine where
  fetch : FrontWorld
  /-- `fetch2_decode_fifo`. -/
  fetch2Decode : List FetchOpInfo
  /-- `decode_rename_fifo`; an entry is what decode has made of the pack listed. -/
  decodeRename : List FetchOpInfo
  world : World
  /-- `bru_commit_port`. -/
  bruPort : Option ExecuteWbPack

/-- What an entry of `decode_rename_fifo` holds. -/
def FetchOpInfo.decoded (q : FetchOpInfo) : DecodeRenamePack := decode q.toFetch2DecodePack

namespace Machine

/-- The machine after reset. -/
def init : Machine := ⟨.init, [], [], .init, none⟩

/-- What one cycle brings from outside, and from the stages that are left open. -/
structure Input where
  cycle : CycleInput := {}
  instructionValue : Option (Fin fetchWidth → Word) := none
  /-- What commit and the branch unit have queued for the predictors. -/
  requests : List SyncRequest := []

/-- The `idle` signals `fetch1` looks at, but for the one of `fetch2`. -/
def idle (m : Machine) (r : CycleResult) : Bool :=
  m.fetch2Decode.isEmpty && m.decodeRename.isEmpty && r.commit.feedback.idle
    && Fifo.customerIsEmpty m.world.core.storeBuffer.ring r.rename.new.storeBuffer.ring
    && Fifo.customerIsEmpty m.world.core.retiredStoreBuffer.ring
      r.rename.new.retiredStoreBuffer.ring

/-- What fetch is given, behind the rest of the core. -/
def frontInput (m : Machine) (inp : Input) (r : CycleResult) : FrontInput where
  room := fetch2DecodeFifoSize - m.fetch2Decode.length
  idle := m.idle r
  bru := r.bru
  sau := r.sau
  commit := r.commit.feedback
  instructionValue := inp.instructionValue
  requests := inp.requests

/-- `decode::run`: how many instructions it moves from one fifo to the other. -/
def decodeTaken (m : Machine) : Nat :=
  min decodeWidth (min m.fetch2Decode.length (decodeRenameFifoSize - m.decodeRename.length))

/-- What commit finds on the port of the branch unit in the next cycle. -/
def bruPortAfter (m : Machine) (inp : CycleInput) (r : CycleResult) : Option ExecuteWbPack :=
  match r.commit.feedback.flush, inp.bru with
  | false, some rev =>
      if r.sau.squashesEqual rev.robId then none
      else some (bruCompute m.world.core.csrFile rev)
  | _, _ => none

/-- The machine after a cycle that has come to `r` in the core and to `f` in fetch. -/
def act (m : Machine) (inp : Input) (r : CycleResult) (f : FrontResult) : Machine where
  fetch := m.fetch.act (m.frontInput inp r) f
  fetch2Decode :=
    if (m.frontInput inp r).flush then []
    else m.fetch2Decode.drop m.decodeTaken ++ f.fetch2.pushed
  decodeRename :=
    if (m.frontInput inp r).flush then []
    else m.decodeRename.drop r.rename.turns.length ++ m.fetch2Decode.take m.decodeTaken
  world := m.world.act r
  bruPort := m.bruPortAfter inp.cycle r

/-- What a cycle of the machine can be asked to do. -/
structure Legal (m : Machine) (inp : Input) : Prop where
  cycle : inp.cycle.Legal m.world
  fifo : inp.cycle.commit.decodeRenameFifo = m.decodeRename.map FetchOpInfo.decoded
  /-- The branch unit is given a branch as it was renamed. -/
  operands : ∀ rev, inp.cycle.bru = some rev →
    ∃ f ∈ m.world.flight, rev.toOpInfo = f.info.toIssue
  /-- A result of the branch unit is the one it computed in the last cycle. -/
  results : ∀ rev ∈ inp.cycle.commit.executeCommitPort, rev.enable = true →
    rev.opUnit = .bru → m.bruPort = some rev

end Machine

/-- **The machines that runs from reset reach.** -/
inductive MachineReachable : Machine → Prop where
  | init : MachineReachable Machine.init
  | cycle {m : Machine} (inp : Machine.Input) (r : CycleResult) (f : FrontResult) :
      MachineReachable m → m.Legal inp → m.world.core.cycle inp.cycle = some r →
      m.fetch.front.cycle (m.frontInput inp r) = some f → MachineReachable (m.act inp r f)

variable {m : Machine}

/-! ## On the way to rename -/

/-- What has been fetched and not renamed, oldest first. -/
def Machine.upstream (m : Machine) : List FetchOpInfo :=
  m.decodeRename ++ m.fetch2Decode ++ m.fetch.front.pending

variable {inp : Machine.Input} {r : CycleResult} {f : FrontResult}

/-- A flush leaves nothing in front of rename. -/
theorem Machine.upstream_flushed (hf : m.fetch.front.cycle (m.frontInput inp r) = some f)
    (hflush : (m.frontInput inp r).flush = true) : (m.act inp r f).upstream = [] := by
  have hpending := (cycle_flush hf hflush).1
  show (if _ then _ else _) ++ (if _ then _ else _) ++ f.next.pending = []
  rw [if_pos hflush, if_pos hflush, hpending]
  rfl

/-- Decode loses nothing, and changes nothing of the order. -/
theorem Machine.upstream_moved (hflush : (m.frontInput inp r).flush = false) :
    (m.act inp r f).upstream = m.decodeRename.drop r.rename.turns.length ++ m.fetch2Decode
      ++ (f.fetch2.pushed ++ f.next.pending) := by
  show (if _ then _ else _) ++ (if _ then _ else _) ++ f.next.pending = _
  rw [hflush, if_neg Bool.false_ne_true, if_neg Bool.false_ne_true]
  rw [List.append_assoc (m.decodeRename.drop _), ← List.append_assoc (m.fetch2Decode.take _),
    List.take_append_drop]
  simp only [List.append_assoc]

/-! ## Two runs in one -/

/-- The core sees a run of its own. -/
theorem MachineReachable.world (h : MachineReachable m) : Reachable m.world := by
  induction h with
  | init => exact .init
  | cycle inp r f _ hl hr _ ih => exact .cycle inp.cycle r ih hl.cycle trivial hr

/-- **Commit says where its flushes go**: back to a branch or a load, or to a handler. -/
theorem cycle_targeted {w : World} {inp : CycleInput} {r : CycleResult} (hw : Reachable w)
    (h : w.core.cycle inp = some r) : r.commit.feedback.Targeted := by
  intro hflush
  obtain ⟨g, hg⟩ := hw.holds
  cases cycle_steers hg h with
  | onward _ _ _ _ hno => rw [hno] at hflush; cases hflush
  | jumped _ _ _ _ _ hno => rw [hno] at hflush; cases hflush
  | late _ _ _ _ _ _ _ hto => exact .inr ⟨hto.jumpEnable, hto.jump⟩
  | conflict _ _ _ _ _ _ hto => exact .inr ⟨hto.jumpEnable, hto.jump⟩
  | exception _ _ _ _ _ _ htrap => exact .inl htrap.hasException
  | interrupt _ _ _ _ _ htrap => exact .inl htrap.hasException

/-- Fetch sees a run of its own. -/
theorem MachineReachable.fetch (h : MachineReachable m) : FrontReachable m.fetch := by
  induction h with
  | init => exact .init
  | cycle inp r f hm _ hr hf ih => exact .cycle _ f ih (cycle_targeted hm.world hr) hf

/-! ## Runs on fixed inputs -/

/-- The machine after a cycle, if nothing aborts. -/
def Machine.next (m : Machine) (inp : Machine.Input) : Option Machine :=
  (m.world.core.cycle inp.cycle).bind fun r =>
    (m.fetch.front.cycle (m.frontInput inp r)).map fun f => m.act inp r f

theorem MachineReachable.next {m' : Machine} {inp : Machine.Input} (h : MachineReachable m)
    (hl : m.Legal inp) (hn : m.next inp = some m') : MachineReachable m' := by
  unfold Machine.next at hn
  obtain ⟨r, hr, hn⟩ := Option.bind_eq_some_iff.mp hn
  obtain ⟨f, hf, rfl⟩ := Option.map_eq_some_iff.mp hn
  exact .cycle inp r f h hl hr hf

/-- A cycle in which only the bus delivers. -/
theorem Machine.legal_idle (words : Option (Fin fetchWidth → Word))
    (hfifo : m.decodeRename = []) : m.Legal { instructionValue := words } where
  cycle := idle_legal m.world
  fifo := by rw [hfifo]; rfl
  operands := by simp
  results := by simp

end DreamCore
