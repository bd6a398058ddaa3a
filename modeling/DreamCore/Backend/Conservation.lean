import DreamCore.Backend.CycleStep

/-!
# Physical registers

Every physical register is free, or the home of an architectural register in the
retired state, or the destination of an instruction in flight. Two of the three
are rings read off by pointers, the third is a scan over valid bits; in the
window they are one list, and a cycle permutes it.

One cycle does not. An exception flush restores the free list to the pointer
saved behind the excepting instruction's own pop, so a register that instruction
had been given is not in any of the three places afterwards.
-/

namespace DreamCore

open Ring

/-- The destinations of the instructions in flight, as the ROB records them. -/
def Core.inFlightRegs (s : Core) : List Nat :=
  (s.rob.contents.filter RobItem.oldPhyRegIdValid).map RobItem.newPhyRegId

/-- The three places a physical register can be in, one after the other. -/
def Core.registers (s : Core) : List Nat :=
  s.phyIdFreeList.contents ++ s.retireRat.validRegs ++ s.inFlightRegs

/-- **Every physical register is in exactly one place.** -/
def Core.Conserved (s : Core) : Prop := ∀ p, p < phyRegNum → s.registers.count p = 1

variable {s : Core} {g : Ghost}

/-- **The destinations in flight are the ids popped since the retired end.** -/
theorem inFlight_eq {freed : Nat} {released : List Nat} {base : Shadow} {fl : List Flight}
    (h : Window.EachAt advance (EntryOk s freed released) base fl) :
    ((slots robSize s.rob.buffer base.rob (tip base fl).rob).filter
        RobItem.oldPhyRegIdValid).map RobItem.newPhyRegId
      = slots phyRegNum s.phyIdFreeList.ring.buffer base.free (tip base fl).free := by
  induction fl using List.reverseRecOn with
  | nil => simp
  | append_singleton fl f ih =>
    obtain ⟨hfl, hf⟩ := Window.eachAt_snoc.mp h
    have hrob : (tip base (fl ++ [f])).rob = (tip base fl).rob + 1 := by
      rw [tip, Window.tip_snoc]
      rfl
    have hfree : (tip base (fl ++ [f])).free = (tip base fl).free + f.info.allocates.toNat := by
      rw [tip, Window.tip_snoc]
      rfl
    have hle : base.rob ≤ (tip base fl).rob := by
      rw [tip_rob]
      omega
    have hone : (([s.rob.buffer ((tip base fl).rob % robSize)].filter
        RobItem.oldPhyRegIdValid).map RobItem.newPhyRegId)
        = if f.info.allocates then [f.info.rdPhy] else [] := by
      rw [List.filter_singleton, hf.item.allocates]
      cases f.info.allocates with
      | false => rfl
      | true => simp [hf.item.newPhyRegId]
    rw [hrob, hfree, slots_succ_right _ hle, List.filter_append, List.map_append, ih hfl, hone]
    cases hal : f.info.allocates with
    | false => simp
    | true =>
      rw [Bool.toNat_true, slots_succ_right _ (free_le_tip base fl), (hf.dest hal).2]
      rfl

/-- The valid registers of a table are the homes of its map. -/
theorem Represents.validRegs_perm {t : RatTable} {m : Nat → Nat} (h : Represents t m)
    (hnd : (homes m).Nodup) : t.validRegs.Perm (homes m) := by
  refine (List.perm_ext_iff_of_nodup (List.nodup_range.filter _) hnd).mpr fun p => ?_
  rw [List.mem_filter, List.mem_range, mem_homes]
  constructor
  · rintro ⟨hp, hv⟩
    exact (h.valid p hp).mp hv
  · rintro ⟨a, ha, rfl⟩
    exact ⟨h.lt a ha, (h.valid _ (h.lt a ha)).mpr ⟨a, ha, rfl⟩⟩

/-- **The three places are the window of the free list and the retired homes.** -/
theorem Inv.registers_perm (h : Inv s g) :
    s.registers.Perm (slots phyRegNum s.phyIdFreeList.ring.buffer g.base.free g.freed
      ++ homes g.base.map) := by
  have hfree : s.phyIdFreeList.contents
      = slots phyRegNum s.phyIdFreeList.ring.buffer g.tip.free g.freed :=
    h.free.contents_eq (by decide)
  have hflight : s.inFlightRegs
      = slots phyRegNum s.phyIdFreeList.ring.buffer g.base.free g.tip.free := by
    rw [Core.inFlightRegs, h.rob.contents_eq (by decide)]
    exact inFlight_eq h.entries
  have hvalid := h.retire.validRegs_perm (List.nodup_append.mp h.nodup).2.1
  rw [Core.registers, hfree, hflight,
    ← slots_append (a := g.base.free) (b := g.tip.free) _ (free_le_tip _ _) h.free.le,
    List.append_assoc (slots _ _ g.base.free g.tip.free)]
  refine List.perm_append_comm.trans (List.Perm.append_left _ ?_)
  exact hvalid.append_left _

/-- **No register is ever in two places**, whatever has leaked. -/
theorem Inv.registers_nodup (h : Inv s g) : s.registers.Nodup :=
  h.registers_perm.symm.nodup h.nodup

/-- **Conservation is a matter of counting.** -/
theorem Inv.conserved_iff (h : Inv s g) :
    s.Conserved ↔ g.freed + (archRegNum - 1) = g.base.free + phyRegNum := by
  have hnd := h.registers_nodup
  have hsub : s.registers ⊆ List.range phyRegNum := by
    intro p hp
    rw [List.mem_range]
    rcases List.mem_append.mp (h.registers_perm.subset hp) with hp | hp
    · exact h.bound p hp
    · obtain ⟨a, ha, rfl⟩ := mem_homes.mp hp
      exact h.retire.lt a ha
  have hlen : s.registers.length + g.base.free = g.freed + (archRegNum - 1) := by
    have := h.base_free_le
    rw [h.registers_perm.length_eq, List.length_append, slots_length, homes_length]
    omega
  have hall : s.Conserved ↔ s.registers.length = phyRegNum := by
    constructor
    · intro hc
      have hsub' : List.range phyRegNum ⊆ s.registers := fun p hp =>
        List.count_pos_iff.mp (by rw [hc p (List.mem_range.mp hp)]; exact Nat.one_pos)
      have h₁ := (List.subperm_of_subset hnd hsub).length_le
      have h₂ := (List.subperm_of_subset List.nodup_range hsub').length_le
      rw [List.length_range] at h₁ h₂
      omega
    · intro hl p hp
      have hperm := (List.subperm_of_subset hnd hsub).perm_of_length_le
        (by rw [hl, List.length_range])
      rw [hperm.count_eq]
      exact List.count_eq_one_of_mem List.nodup_range (List.mem_range.mpr hp)
  rw [hall]
  omega

/-- What a run preserves as long as nothing leaks. -/
theorem Run.conserved {w : World}
    (h : Run (fun w inp => w.core.leaks inp.commit.writeAck = false) w) :
    ∃ g, w.Holds g ∧ g.freed + (archRegNum - 1) = g.base.free + phyRegNum := by
  induction h with
  | init => exact ⟨_, holds_init, rfl⟩
  | cycle inp r _ hl hp hr ih =>
    obtain ⟨g₀, hg₀, hcount⟩ := ih
    obtain ⟨g, hg, hev, -⟩ := cycle_effect hg₀ hl hr
    have := hev.ids hp
    exact ⟨g, hg, by omega⟩

/-- **Conservation, as long as commit takes no exception on an entry that was given a physical
register.** -/
theorem conserved_of_no_leak {w : World}
    (h : Run (fun w inp => w.core.leaks inp.commit.writeAck = false) w) : w.core.Conserved := by
  obtain ⟨g, hg, hcount⟩ := h.conserved
  exact hg.inv.conserved_iff.mpr hcount

/-- What the load unit makes of a misaligned address. -/
def loadFault (addr : Word) (p : ExecuteWbPack) : ExecuteWbPack :=
  { p with hasException := true, exceptionId := .loadAddressMisaligned, exceptionValue := addr }

/-- Two `addi` into `x1` and a misaligned load into `x0`, up to the exception. -/
def addThenFault : List (World → CycleInput) :=
  [fun _ => fetchPacks [plainPack 0x80000000 0x00500093, plainPack 0x80000004 0x00108093,
      plainPack 0x80000008 0x00102003],
    finishOldest id, fun _ => {}, finishOldest id, fun _ => {},
    finishOldest (loadFault 1), fun _ => {}]

theorem conserved_addThenFault : (World.init.playFrom addThenFault).core.Conserved := by
  refine conserved_of_no_leak (Run.play (P := fun w inp => !w.core.leaks inp.commit.writeAck)
    addThenFault (fun w inp hp => by simpa using hp) ?_ .init
    (World.play_eq_some (by decide +kernel)))
  intro inp hinp w
  simp only [addThenFault, List.mem_cons, List.not_mem_nil, or_false] at hinp
  rcases hinp with rfl | rfl | rfl | rfl | rfl | rfl | rfl
  · exact fetchPacks_legal (by simp [plainPack_ok]) w
  · exact finishOldest_legal id (fun _ => ⟨rfl, rfl, rfl⟩) w
  · exact idle_legal w
  · exact finishOldest_legal id (fun _ => ⟨rfl, rfl, rfl⟩) w
  · exact idle_legal w
  · exact finishOldest_legal (loadFault 1) (fun _ => ⟨rfl, rfl, rfl⟩) w
  · exact idle_legal w

/-- `lw x1, 1(x0)`, up to its exception. -/
def faultingLoad : List (World → CycleInput) :=
  [fun _ => fetchPacks [plainPack 0x80000000 0x00102083],
    finishOldest (loadFault 1), fun _ => {}]

/-- **A misaligned load loses the register it was given.** -/
theorem faultingLoad_leaks : ¬ ∀ w, Reachable w → w.core.Conserved := by
  intro hall
  have hrun : Reachable (World.init.playFrom faultingLoad) := by
    refine Run.play (P := fun _ _ => true) faultingLoad (fun _ _ _ => trivial) ?_ .init
      (World.play_eq_some (by decide +kernel))
    intro inp hinp w
    simp only [faultingLoad, List.mem_cons, List.not_mem_nil, or_false] at hinp
    rcases hinp with rfl | rfl | rfl
    · exact fetchPacks_legal (by simp [plainPack_ok]) w
    · exact finishOldest_legal (loadFault 1) (fun _ => ⟨rfl, rfl, rfl⟩) w
    · exact idle_legal w
  have hone := hall _ hrun 31 (by decide)
  have hzero : (World.init.playFrom faultingLoad).core.registers.count 31 = 0 := by decide +kernel
  rw [hzero] at hone
  cases hone

end DreamCore
