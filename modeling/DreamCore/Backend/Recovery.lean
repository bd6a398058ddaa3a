import DreamCore.Backend.CycleStep

/-!
# Recovery from a checkpoint

When a branch turns out mispredicted, the branch unit writes back what a
checkpoint saved when the branch was renamed. In between, older instructions have
retired, younger ones have been renamed and squashed, and other branches may have
been recovered, in any order. The core is nevertheless where it was right after
the branch was renamed, but for what commit has done since.

All of it is in the invariant: after the cut the branch is the youngest
instruction of the window, and the window compares itself with the record of the
moment the branch was renamed.
-/

namespace DreamCore

open Ring

/-- **`s` is `after`, advanced by commit alone**: the registers are where they were, the free
list continues the same way and then with the `released` ids, and every young end stands where
it stood. -/
structure Core.AdvancedByCommit (s after : Core) (released : List Nat) : Prop where
  map : ∀ a, IsReg a → ∃ p, s.speculativeRat.producerGetPhyId a = some (some p)
    ∧ after.speculativeRat.producerGetPhyId a = some (some p)
  free : s.phyIdFreeList.contents = after.phyIdFreeList.contents ++ released
  rob : s.rob.wptr = after.rob.wptr
  loadQueue : s.loadQueue.ring.wptr = after.loadQueue.ring.wptr
  storeBuffer : s.storeBuffer.ring.wptr = after.storeBuffer.ring.wptr
  checkpointBuffer : s.checkpointBuffer.wptr = after.checkpointBuffer.wptr

/-- A table that holds a map answers with it. -/
theorem Represents.lookup_eq {t : RatTable} {m : Nat → Nat} (h : Represents t m) {a : Nat}
    (ha : IsReg a) : t.producerGetPhyId a = some (some (m a)) := by
  have hone : (List.range phyRegNum).filter (t.maps a) = [m a] := by
    refine List.perm_singleton.mp ((List.perm_ext_iff_of_nodup (List.nodup_range.filter _)
      (List.nodup_singleton _)).mpr fun p => ?_)
    rw [List.mem_filter, List.mem_range, List.mem_singleton]
    constructor
    · rintro ⟨hp, hm⟩
      exact ((h.maps_iff hp ha).mp hm).symm
    · rintro rfl
      exact ⟨h.lt a ha, (h.maps_iff (h.lt a ha) ha).mpr rfl⟩
  have hreg : 0 < a ∧ a < archRegNum := ha
  simp [RatTable.producerGetPhyId, hone, guard, hreg]

/-- **The youngest instruction of a window** sees the core it was renamed in. -/
theorem Inv.youngest {s : Core} {g : Ghost} {l : List Flight} {f : Flight} (h : Inv s g)
    (hl : g.flight = l ++ [f]) :
    s.AdvancedByCommit f.after (g.released.drop f.releasedBefore) := by
  have hrec := (h.entry (show g.flight = l ++ f :: [] from hl)).recorded
  have htip : g.tip = advance f (tip g.base l) := by
    rw [Ghost.tip, hl]
    exact Window.tip_snoc ..
  refine ⟨fun a ha => ⟨g.tip.map a, h.spec.lookup_eq ha, ?_⟩, ?_, ?_, ?_, ?_, ?_⟩
  · rw [htip]
    exact hrec.map.lookup_eq ha
  · rw [FreeList.contents, h.free.contents_eq (by decide), htip]
    exact hrec.free
  · rw [h.rob.wptr, htip, hrec.rob]
  · rw [h.lq.wptr, htip, hrec.lq]
  · rw [h.sb.wptr, htip, hrec.sb]
  · rw [h.ck.wptr, htip, hrec.ck]

/-- Instructions in flight have different ROB ids. -/
theorem World.Holds.robId_inj {w : World} {g : Ghost} (hw : w.Holds g) {f f' : Flight}
    (hf : f ∈ w.flight) (hf' : f' ∈ w.flight) (he : f.info.robId = f'.info.robId) : f = f' := by
  rw [← hw.flight] at hf hf'
  obtain ⟨l₁, l₂, hl⟩ := List.append_of_mem hf
  obtain ⟨l₁', l₂', hl'⟩ := List.append_of_mem hf'
  refine (hw.inv.slot_inj hl hl' ?_).2
  have h₁ := (hw.inv.entry hl).robId
  have h₂ := (hw.inv.entry hl').robId
  rw [he, h₂] at h₁
  exact (congrArg Ptr.id h₁).symm

/-- **Checkpoint recovery is exact.** After the cycle in which the branch unit recovers from
`f`, whatever has happened since `f` was renamed, `f` is the youngest instruction in flight, and
the core is as it was right after `f` was renamed, advanced by the retirements since. -/
theorem recovery_exact {w : World} {inp : CycleInput} {r : CycleResult} {f : Flight}
    (hw : Reachable w) (hl : inp.Legal w) (h : w.core.cycle inp = some r)
    (hflush : r.bru.flush = true) (hf : f ∈ w.flight) (hid : f.info.robId = r.bru.robId) :
    (∃ l, (w.act r).flight = l ++ [f])
      ∧ r.next.AdvancedByCommit f.after ((w.act r).released.drop f.releasedBefore) := by
  obtain ⟨g₀, hg₀⟩ := hw.holds
  obtain ⟨g, hg, -, hcut⟩ := cycle_effect hg₀ hl h
  obtain ⟨l, f', hl', hf', hid'⟩ := hcut hflush
  have hff : f = f' := hg₀.robId_inj hf hf' (hid.trans hid'.symm)
  subst hff
  have hyoung := hg.inv.youngest (l := l) (f := f) (hg.flight.trans hl')
  rw [hg.released] at hyoung
  exact ⟨⟨l, hl'⟩, hyoung⟩

/-- `beq x0, x0, 8`, predicted not taken, and an `addi` fetched behind it. -/
def mispredictedBranch : List Fetch2DecodePack :=
  [{ enable := true, pc := 0x80000000, value := 0x00000463,
      branchPredictorInfoPack :=
        { predicted := true, conditionJump := true, nextPc := 0x80000004 } },
    plainPack 0x80000004 0x00500093]

/-- The world in which both have been renamed. -/
def speculating : World := World.init.playFrom [fun _ => fetchPacks mispredictedBranch]

theorem recovery_speculating : ∃ r f,
    speculating.core.cycle { bru := speculating.flight.head?.map (·.info.operands) } = some r
      ∧ speculating.flight.head? = some f ∧ speculating.flight.length = 2
      ∧ (∃ l, (speculating.act r).flight = l ++ [f])
      ∧ r.next.AdvancedByCommit f.after ((speculating.act r).released.drop f.releasedBefore) := by
  have hpacks : ∀ p ∈ mispredictedBranch, p.FetchOk := by
    intro p hp
    simp only [mispredictedBranch, List.mem_cons, List.not_mem_nil, or_false] at hp
    rcases hp with rfl | rfl
    · exact ⟨rfl, fun _ => ⟨by decide, by decide⟩⟩
    · exact plainPack_ok ..
  have hrun : Reachable speculating := by
    refine Run.play (P := fun _ _ => true) _ (fun _ _ _ => trivial) ?_ .init
      (World.play_eq_some (by decide +kernel))
    intro inp hinp w
    rw [List.mem_singleton.mp hinp]
    exact fetchPacks_legal hpacks w
  obtain ⟨f, hf⟩ : ∃ f, speculating.flight.head? = some f :=
    Option.isSome_iff_exists.mp (by decide +kernel)
  obtain ⟨r, hr⟩ : ∃ r, speculating.core.cycle
      { bru := speculating.flight.head?.map (·.info.operands) } = some r :=
    Option.isSome_iff_exists.mp (by decide +kernel)
  have hhead : (speculating.flight.head?.map fun f => (f.info.robId, f.info.operands.opUnit))
      = some (⟨0, false⟩, .bru) := by decide +kernel
  have hcycle : (speculating.core.cycle
      { bru := speculating.flight.head?.map (·.info.operands) }).map
        (fun r => (r.bru.flush, r.bru.robId)) = some (true, ⟨0, false⟩) := by decide +kernel
  rw [hf, Option.map_some, Option.some.injEq, Prod.mk.injEq] at hhead
  rw [hr, Option.map_some, Option.some.injEq, Prod.mk.injEq] at hcycle
  have hmem : f ∈ speculating.flight := List.mem_of_head? hf
  have hlegal : CycleInput.Legal speculating
      { bru := speculating.flight.head?.map (·.info.operands) } :=
    { idle_legal speculating with
      bru := by
        rintro rev hrev
        rw [hf] at hrev
        cases hrev
        exact ⟨f, hmem, operandsOf_operands _, hhead.2⟩ }
  exact ⟨r, f, hr, hf, by decide +kernel,
    recovery_exact hrun hlegal hr hcycle.1 hmem (hhead.1.trans hcycle.2.symm)⟩

end DreamCore
