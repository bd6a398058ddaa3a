import DreamCore.Backend.CycleStep

/-!
# The checkpoint buffer

Rename takes a checkpoint for every predicted branch and for every load, as long
as there is room; commit pops one when their owner retires. Commit learns that
there is one to pop from the branch prediction pack the result carries, and
dispatch does not pass that pack on for the loads and stores. So the checkpoint a
load was given stays behind when the load retires.

As long as no such load retires, the buffer is the list of the checkpoints of the
instructions in flight.
-/

namespace DreamCore

open Ring

/-- The slots the buffer occupies, oldest first. -/
def Fifo.ids {n : Nat} {α : Type} (f : Fifo n α) : List Nat :=
  (List.range (Ptr.gap n f.rptr f.wptr)).map fun i => (f.rptr.id + i) % n

/-- The slots of a window are its counters, folded. -/
theorem Fifo.Window.ids_eq {n : Nat} {α : Type} {f : Fifo n α} {a b : Nat} (hn : 0 < n)
    (h : Fifo.Window f a b) : f.ids = slots n (fun k => k) a b := by
  rw [← Fifo.Window.contents_eq (f := { f with buffer := fun k => k }) hn
    ⟨h.rptr, h.wptr, h.le, h.size⟩]
  rfl

namespace World

/-- The instructions in flight that were given a checkpoint, oldest first. -/
def owners (w : World) : List Flight := w.flight.filter fun f => f.info.hasCheckpoint

/-- **The buffer is the checkpoints of the instructions in flight.** Its occupied slots are
theirs, in program order, each holds what it held right after its owner was renamed, and an
empty ROB leaves it empty. -/
structure CheckpointsOwned (w : World) : Prop where
  ids : w.core.checkpointBuffer.ids
    = w.owners.map fun f => f.info.branchPredictorInfoPack.checkpointId
  unmodified : ∀ f ∈ w.owners,
    w.core.checkpointBuffer.buffer f.info.branchPredictorInfoPack.checkpointId
      = f.after.checkpointBuffer.buffer f.info.branchPredictorInfoPack.checkpointId
  empty : Fifo.customerIsEmpty w.core.rob w.core.rob = true →
    Fifo.customerIsEmpty w.core.checkpointBuffer w.core.checkpointBuffer = true

end World

variable {w : World} {g : Ghost}

/-- **The checkpoints taken along a window** are those of its owners. -/
theorem ownedIds_eq {s : Core} {freed : Nat} {released : List Nat} {base : Shadow}
    {fl : List Flight} (h : Window.EachAt advance (EntryOk s freed released) base fl) :
    slots checkpointBufferSize (fun k => k) base.ck (tip base fl).ck
      = (fl.filter fun f => f.info.hasCheckpoint).map
          fun f => f.info.branchPredictorInfoPack.checkpointId := by
  induction fl using List.reverseRecOn with
  | nil => simp
  | append_singleton fl f ih =>
    obtain ⟨hfl, hf⟩ := Window.eachAt_snoc.mp h
    have hck : (tip base (fl ++ [f])).ck = (tip base fl).ck + f.info.hasCheckpoint.toNat := by
      rw [tip, Window.tip_snoc]
      rfl
    rw [hck, List.filter_append, List.map_append, ← ih hfl]
    cases hc : f.info.hasCheckpoint with
    | false => simp [hc]
    | true =>
      rw [Bool.toNat_true, slots_succ_right _ (ck_le_tip base fl)]
      simp [hc, hf.checkpointId hc]

/-- **In step, the two counters make the buffer what it should be.** -/
theorem World.Holds.checkpointsOwned (hw : w.Holds g) (hck : g.ckHead = g.base.ck) :
    w.CheckpointsOwned where
  ids := by
    rw [hw.inv.ck.ids_eq (by decide), hck, World.owners, ← hw.flight]
    exact ownedIds_eq hw.inv.entries
  unmodified := by
    intro f hf
    obtain ⟨hmem, hc⟩ := List.mem_filter.mp hf
    rw [← hw.flight] at hmem
    obtain ⟨l₁, l₂, hl⟩ := List.append_of_mem hmem
    have hentry := hw.inv.entry hl
    rw [hentry.checkpointId hc]
    exact hentry.recorded.checkpoint hc
  empty := by
    intro he
    have hrob := hw.inv.rob
    have hcks := hw.inv.ck
    rw [Fifo.customerIsEmpty_iff (by decide) hrob.rptr hrob.wptr hrob.le hrob.size, Ghost.tip,
      tip_rob] at he
    have hnil : g.flight = [] := List.eq_nil_of_length_eq_zero (by omega)
    rw [Fifo.customerIsEmpty_iff (by decide) hcks.rptr hcks.wptr hcks.le hcks.size, hck,
      Ghost.tip, hnil]
    rfl

/-- What a run preserves as long as no load leaves its checkpoint behind. -/
theorem Run.checkpoints
    (h : Run (fun w inp => w.core.dropsCheckpoint inp.commit.writeAck w.flight = false) w) :
    ∃ g, w.Holds g ∧ g.ckHead = g.base.ck := by
  induction h with
  | init => exact ⟨_, holds_init, rfl⟩
  | cycle inp r _ hl hp hr ih =>
    obtain ⟨g₀, hg₀, hck⟩ := ih
    obtain ⟨g, hg, hev, -⟩ := cycle_effect hg₀ hl hr
    exact ⟨g, hg, hev.checkpoints hp hck⟩

/-- **The buffer belongs to the instructions in flight, as long as commit retires no load that
was given a checkpoint.** -/
theorem checkpoints_of_no_drop
    (h : Run (fun w inp => w.core.dropsCheckpoint inp.commit.writeAck w.flight = false) w) :
    w.CheckpointsOwned := by
  obtain ⟨g, hg, hck⟩ := h.checkpoints
  exact hg.checkpointsOwned hck

/-- What the branch unit makes of a taken branch. -/
def resolved (target : Word) (p : ExecuteWbPack) : ExecuteWbPack :=
  { p with bruJump := true, bruNextPc := target }

/-- A predicted branch, an `addi` behind it, and the branch resolved and retired. -/
def branchRetires : List (World → CycleInput) :=
  [fun _ => fetchPacks
      [{ enable := true, pc := 0x80000000, value := 0x00000463,
          branchPredictorInfoPack :=
            { predicted := true, conditionJump := true, jump := true, nextPc := 0x80000008 } },
        plainPack 0x80000008 0x00500093],
    finishOldest (resolved 0x80000008), fun _ => {}]

theorem checkpoints_branchRetires : (World.init.playFrom branchRetires).CheckpointsOwned := by
  refine checkpoints_of_no_drop (Run.play
    (P := fun w inp => !w.core.dropsCheckpoint inp.commit.writeAck w.flight) branchRetires (fun w inp hp => by simpa using hp) ?_ .init
    (World.play_eq_some (by decide +kernel)))
  intro inp hinp w
  simp only [branchRetires, List.mem_cons, List.not_mem_nil, or_false] at hinp
  rcases hinp with rfl | rfl | rfl
  · refine fetchPacks_legal (fun p hp => ?_) w
    simp only [List.mem_cons, List.not_mem_nil, or_false] at hp
    rcases hp with rfl | rfl
    · exact ⟨rfl, fun _ => ⟨by decide, by decide⟩⟩
    · exact plainPack_ok ..
  · exact finishOldest_legal (resolved _) (fun _ => ⟨rfl, rfl, rfl⟩) w
  · exact idle_legal w

/-- `lw x1, 0(x0)`, finished and retired. -/
def loadRetires : List (World → CycleInput) :=
  [fun _ => fetchPacks [plainPack 0x80000000 0x00002083], finishOldest id, fun _ => {}]

/-- **A load leaves its checkpoint behind**: the ROB is empty and the buffer is not. -/
theorem loadRetires_drops : ¬ ∀ w, Reachable w → w.CheckpointsOwned := by
  intro hall
  have hrun : Reachable (World.init.playFrom loadRetires) := by
    refine Run.play (P := fun _ _ => true) loadRetires (fun _ _ _ => trivial) ?_ .init
      (World.play_eq_some (by decide +kernel))
    intro inp hinp w
    simp only [loadRetires, List.mem_cons, List.not_mem_nil, or_false] at hinp
    rcases hinp with rfl | rfl | rfl
    · exact fetchPacks_legal (by simp [plainPack_ok]) w
    · exact finishOldest_legal id (fun _ => ⟨rfl, rfl, rfl⟩) w
    · exact idle_legal w
  have hempty := (hall _ hrun).empty (by decide +kernel)
  have hfull : Fifo.customerIsEmpty (World.init.playFrom loadRetires).core.checkpointBuffer
      (World.init.playFrom loadRetires).core.checkpointBuffer = false := by decide +kernel
  rw [hfull] at hempty
  cases hempty

end DreamCore
