import DreamCore.Backend.Recovery

/-!
# A store that comes too late

A load may execute before an older store knows its address. When the store
address unit computes the address, it looks in the load queue for a younger load
that has executed and overlaps, and if that load owns a checkpoint, everything
from the load on is to be taken back at once; otherwise commit does it when the
load gets there.

The load queue learns about the checkpoint from the branch prediction pack of the
load, and dispatch does not pass that pack on for loads. So the recovery is never
started: not for a load without a checkpoint, where it should not be, and not for
a load with one either.
-/

namespace DreamCore

open Ring

/-- The load queue entry rename gave to a load: the youngest one right after. -/
def Flight.loadSlot (f : Flight) : Nat :=
  (f.after.loadQueue.ring.wptr.id + loadQueueSize - 1) % loadQueueSize

/-- A younger load that has executed and overlaps the store in `rev`. -/
def World.violates (w : World) (rev : ReadregExecutePack) (f : Flight) : Bool :=
  f.info.takesLoadQueue && LoadQueue.conflicts (w.core.loadQueue.ring.buffer f.loadSlot)
    rev.effectiveAddr (BitVec.ofNat 32 (sauSize rev)) rev.robId

/-- The oldest load that the store in `rev` finds to have run ahead of it. -/
def World.oldestConflict (w : World) (rev : ReadregExecutePack) : Option Flight :=
  w.flight.find? (w.violates rev)

/-- **`s` is back at `before`**: the registers live where they lived, and every young end stands
where it stood. -/
structure Core.BackAt (s before : Core) : Prop where
  map : ∀ a, IsReg a → s.speculativeRat.producerGetPhyId a = before.speculativeRat.producerGetPhyId a
  free : s.phyIdFreeList.ring.rptr = before.phyIdFreeList.ring.rptr
  rob : s.rob.wptr = before.rob.wptr
  loadQueue : s.loadQueue.ring.wptr = before.loadQueue.ring.wptr
  storeBuffer : s.storeBuffer.ring.wptr = before.storeBuffer.ring.wptr
  checkpointBuffer : s.checkpointBuffer.wptr = before.checkpointBuffer.wptr

/-- **The store address unit recovers from a load violation.** -/
structure World.Recovers (w : World) (inp : CycleInput) : Prop where
  /-- The front end is told to fetch the load again, when it owns a checkpoint. -/
  signalled : ∀ rev f, inp.sau = some rev → rev.enable = true → rev.hasException = false →
    w.oldestConflict rev = some f → f.info.hasCheckpoint = true →
    inp.sauFb w.core = ⟨true, f.info.pc, f.info.robId⟩
  /-- What it goes back to is the moment before the load was renamed. -/
  restores : ∀ r, w.core.cycle inp = some r → r.sau.flush = true →
    ∃ f ∈ w.flight, f.info.robId = r.sau.robId ∧ ∀ cur before rev,
      renameOp cur before rev = some (f.info, f.after) → r.next.BackAt before

variable {w : World} {g : Ghost}

/-! ## Never signalled -/

/-- **The recovery is right exactly when the oldest load that ran ahead owns no checkpoint.** -/
theorem load_violation_iff {w : World} {inp : CycleInput} (hw : Reachable w) :
    w.Recovers inp ↔ ∀ rev f, inp.sau = some rev → rev.enable = true → rev.hasException = false →
      w.oldestConflict rev = some f → f.info.hasCheckpoint = false := by
  obtain ⟨g, hg⟩ := hw.holds
  have hquiet := hg.inv.sauFb_flush inp
  constructor
  · intro h rev f hrev hen hex hf
    rw [Bool.eq_false_iff]
    intro hc
    have hsig := h.signalled rev f hrev hen hex hf hc
    rw [hsig] at hquiet
    cases hquiet
  · intro h
    refine ⟨fun rev f hrev hen hex hf hc => ?_, fun r hr hflush => ?_⟩
    · rw [h rev f hrev hen hex hf] at hc
      cases hc
    · have hfb := (Core.cycle_eq_some hr).feedback
      rw [arbitrate_eq hquiet] at hfb
      have hsau : r.sau = inp.sauFb w.core := congrArg Prod.snd hfb
      rw [hsau, hquiet] at hflush
      cases hflush

/-! ## The load that is forgotten -/

/-- `sw x1, 0(x2)` and `lw x3, 0(x2)` behind it. -/
def storeThenLoad : List Fetch2DecodePack :=
  [plainPack 0x80000000 0x00112023, plainPack 0x80000004 0x00012183]

/-- The oldest load in flight executes. -/
def executeLoad (w : World) : CycleInput :=
  { lu := (w.flight.find? fun f => f.info.opUnit == .lu).map (·.info.operands) }

/-- The oldest store in flight computes its address. -/
def executeStoreAddress (w : World) : CycleInput :=
  { sau := (w.flight.find? fun f => f.info.opUnit == .sdu).map fun f =>
      { f.info.operands with
        opUnit := .sau
        subOp := .sau .staw } }

theorem executeLoad_legal (w : World) : (executeLoad w).Legal w :=
  { idle_legal w with
    lu := by
      intro rev hrev
      obtain ⟨f, hf, rfl⟩ := Option.map_eq_some_iff.mp hrev
      have hu : f.info.opUnit = .lu := by simpa using List.find?_some hf
      refine ⟨f, List.mem_of_find?_eq_some hf, operandsOf_operands _, ?_⟩
      simp [OpInfo.operands, OpInfo.toIssue, OpInfo.toLsu, hu, OpUnit.isLsu] }

theorem executeStoreAddress_legal (w : World) : (executeStoreAddress w).Legal w :=
  { idle_legal w with
    sau := by
      intro rev hrev
      obtain ⟨f, hf, rfl⟩ := Option.map_eq_some_iff.mp hrev
      have hu : f.info.opUnit = .sdu := by simpa using List.find?_some hf
      have hop := operandsOf_operands f.info
      refine ⟨f, List.mem_of_find?_eq_some hf, ⟨hop.robId, hop.pack, ?_, ?_⟩, rfl⟩
      · simp [hu]
      · rw [hu]
        rfl }

/-- The world in which the load has executed first. -/
def loadAhead : World :=
  World.init.playFrom [fun _ => fetchPacks storeThenLoad, executeLoad]

theorem storeThenLoad_legal (w : World) : (fetchPacks storeThenLoad).Legal w :=
  fetchPacks_legal (by simp [storeThenLoad, plainPack_ok]) w

theorem loadAhead_reachable : Reachable loadAhead := by
  refine Run.play (P := fun _ _ => true) _ (fun _ _ _ => trivial) ?_ .init
    (World.play_eq_some (by decide +kernel))
  intro inp hinp w
  simp only [List.mem_cons, List.not_mem_nil, or_false] at hinp
  rcases hinp with rfl | rfl
  · exact storeThenLoad_legal w
  · exact executeLoad_legal w

/-- Four loads. -/
def fourLoads : List Fetch2DecodePack := List.replicate 4 (plainPack 0x80000000 0x00002083)

/-- Everything in flight finishes. -/
def finishAll (w : World) : CycleInput :=
  { commit := { executeCommitPort := w.flight.map fun f => .copy f.info.operands } }

theorem finishAll_legal (w : World) : (finishAll w).Legal w :=
  { idle_legal w with
    decoded := by simp [finishAll]
    results := by
      intro rev hrev _
      obtain ⟨f, hf, rfl⟩ := List.mem_map.mp hrev
      exact ⟨f, hf, resultOf_operands f.info⟩ }

/-- Four times `jal x0, 8`. Each takes a checkpoint. -/
def fourJumps : List Fetch2DecodePack :=
  List.replicate 4
    { enable := true
      pc := 0x80000000
      value := 0x0080006f
      branchPredictorInfoPack := { predicted := true, jump := true, nextPc := 0x80000008 } }

theorem fourJumps_ok : ∀ p ∈ fourJumps, p.FetchOk := by
  intro p hp
  rw [List.eq_of_mem_replicate hp]
  exact ⟨rfl, fun _ => ⟨rfl, by decide⟩⟩

/-- Four loads retire and leave their checkpoints behind, sixty jumps take the rest of the buffer,
and the load behind the store executes first. -/
def crowdedRun : List (World → CycleInput) :=
  [fun _ => fetchPacks fourLoads, finishAll, fun _ => {}]
    ++ List.replicate 15 (fun _ => fetchPacks fourJumps)
    ++ [fun _ => fetchPacks storeThenLoad, executeLoad]

def crowded : World := World.init.playFrom crowdedRun

theorem crowded_reachable : Reachable crowded := by
  refine Run.play (P := fun _ _ => true) _ (fun _ _ _ => trivial) ?_ .init
    (World.play_eq_some (by decide +kernel))
  intro inp hinp w
  simp only [crowdedRun, List.mem_append, List.mem_cons, List.not_mem_nil, or_false,
    List.mem_replicate] at hinp
  rcases hinp with ((rfl | rfl | rfl) | ⟨-, rfl⟩) | rfl | rfl
  · exact fetchPacks_legal (by simp [fourLoads, plainPack_ok]) w
  · exact finishAll_legal w
  · exact idle_legal w
  · exact fetchPacks_legal fourJumps_ok w
  · exact storeThenLoad_legal w
  · exact executeLoad_legal w

/-- The store finds the load that ran ahead of it, and the load owns no checkpoint. -/
theorem load_violation_crowded :
    ((executeStoreAddress crowded).sau.bind fun rev => crowded.oldestConflict rev).isSome = true
      ∧ crowded.Recovers (executeStoreAddress crowded) := by
  have hfacts : ((executeStoreAddress crowded).sau.bind fun rev =>
      (crowded.oldestConflict rev).map fun f => f.info.hasCheckpoint) = some false := by
    decide +kernel
  refine ⟨by decide +kernel, (load_violation_iff crowded_reachable).mpr ?_⟩
  intro rev f hrev _ _ hf
  rw [hrev, Option.bind_some, hf] at hfacts
  exact Option.some.inj hfacts

/-- **A load that ran ahead and owns a checkpoint is not fetched again.** -/
theorem loadAhead_forgotten :
    ¬ ∀ w inp, Reachable w → inp.Legal w → w.Recovers inp := by
  intro h
  have hrec := h loadAhead (executeStoreAddress loadAhead) loadAhead_reachable
    (executeStoreAddress_legal _)
  obtain ⟨rev, hrev⟩ : ∃ rev, (executeStoreAddress loadAhead).sau = some rev :=
    Option.isSome_iff_exists.mp (by decide +kernel)
  have hfacts : ((executeStoreAddress loadAhead).sau.bind fun rev =>
      (loadAhead.oldestConflict rev).map fun f =>
        (rev.enable, rev.hasException, f.info.hasCheckpoint)) = some (true, false, true) := by
    decide +kernel
  rw [hrev, Option.bind_some, Option.map_eq_some_iff] at hfacts
  obtain ⟨f, hf, hfacts⟩ := hfacts
  rw [Prod.mk.injEq, Prod.mk.injEq] at hfacts
  obtain ⟨hen, hex, hck⟩ := hfacts
  have hquiet : ((executeStoreAddress loadAhead).sauFb loadAhead.core).flush = false := by
    decide +kernel
  rw [hrec.signalled rev f hrev hen hex hf hck] at hquiet
  cases hquiet

end DreamCore
