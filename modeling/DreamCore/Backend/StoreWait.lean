import DreamCore.Backend.Stores

/-!
# Waiting for a noncacheable store

Commit asks the bus for a noncacheable store and comes back to it when the
answer is there, with nothing but one flag to remember it by. The flag is enough:
while it is set, the store is still the oldest instruction in flight, still
finished, and its entry still says that it goes to a device.
-/

namespace DreamCore

open Ring

variable {w : World} {g₀ g : Ghost} {inp : CycleInput} {r : CycleResult}

/-! ## The front of the ROB -/

/-- **The front of the ROB is the oldest instruction in flight.** -/
theorem World.Holds.front (hw : w.Holds g) {new : Core} (hs : w.core.SameWindow new) :
    Fifo.customerGetFrontId w.core.rob new.rob = w.flight.head?.map fun f => f.info.robId.id := by
  have hrob := hw.inv.rob
  have hrp : new.rob.rptr = Ptr.fold robSize g.base.rob := by rw [hs.rob]; exact hrob.rptr
  have hempty := Fifo.customerIsEmpty_iff (by decide) hrp hrob.wptr hrob.le hrob.size
  rw [Ghost.tip, tip_rob] at hempty
  unfold Fifo.customerGetFrontId
  cases hf : w.flight with
  | nil =>
    rw [← hw.flight] at hf
    rw [if_pos (hempty.mpr (by rw [hf]; rfl))]
    rfl
  | cons f rest =>
    rw [← hw.flight] at hf
    rw [if_neg fun he => by
      have := hempty.mp he
      rw [hf, List.length_cons] at this
      omega]
    rw [hrp, List.head?_cons, Option.map_some, (hw.inv.frontEntry hf).robId]

/-- The entry at the front is no load with a checkpoint and no load that stores. -/
theorem World.Holds.plainLoad (hw : w.Holds g) {new : Core} (hs : w.core.SameWindow new) {id : Nat}
    (hid : Fifo.customerGetFrontId w.core.rob new.rob = some id)
    (hfin : (w.core.rob.buffer id).finish = true) : (w.core.rob.buffer id).PlainLoad := by
  have hc : Committing w.core g 0 { new := new } :=
    ⟨hw.inv.congr hs, Core.SameTail.congr ⟨rfl, rfl, rfl, rfl, rfl, rfl⟩ hs, rfl, rfl, rfl,
      Nat.zero_le _, rfl, (by simp), (List.append_nil _).symm, fun j _ _ => by rw [hs.free]⟩
  exact hc.plainLoad hid hfin

/-- What commit does to the store side in a cycle. -/
theorem cycle_storeEffect (hw : w.Holds g) (h : w.core.cycle inp = some r) :
    StoreEffect w.core (inp.early w.core) inp.commit.writeAck r.commit :=
  commitRun_store (fun _ hid hfin => hw.plainLoad (early_sameWindow w.core inp) hid hfin)
    (Core.cycle_eq_some h).commit

/-- **The oldest instruction in flight is never squashed by the branch unit.** -/
theorem oldest_not_squashed (hw : w.Holds g₀) (hl : inp.Legal w) (h : w.core.cycle inp = some r)
    {f : Flight} {rest : List Flight} (hf : w.flight = f :: rest) :
    r.bru.squashes f.info.robId = false := by
  rw [Bool.eq_false_iff]
  intro hsq
  simp only [FlushFeedback.squashes, Bool.and_eq_true] at hsq
  obtain ⟨hfl, hy⟩ := hsq
  have hbru := ((Core.cycle_eq_some h).feedbacks hw).2
  have hb : r.bru = inp.bruFb w.core := by
    cases hc : r.commit.feedback.flush with
    | false => rwa [hc, if_neg Bool.false_ne_true] at hbru
    | true =>
      rw [hc, if_pos rfl] at hbru
      rw [hbru] at hfl
      cases hfl
  rw [hb] at hfl hy
  obtain ⟨f', hf', -, -, -, -, hid⟩ := hl.flushing hfl
  have hages := hw.ages
  rw [hf, List.pairwise_cons] at hages
  rw [hid] at hy
  rw [hf] at hf'
  rcases List.mem_cons.mp hf' with rfl | hf'
  · rw [Ptr.younger_irrefl] at hy
    cases hy
  · rw [Ptr.younger_asymm (hages.1 f' hf')] at hy
    cases hy

/-- **Where nothing retires and nothing is flushed, the oldest instruction stays the oldest.** -/
theorem oldest_stays (hw : w.Holds g₀) (hl : inp.Legal w) (h : w.core.cycle inp = some r)
    {f : Flight} {rest : List Flight} (hf : w.flight = f :: rest)
    (hret : r.commit.retired = []) (hfl : r.commit.feedback.flush = false) :
    ∃ l, (w.act r).flight = f :: (l
      ++ flights (w.released ++ releasedIds r.commit.retired).length r.rename.turns) := by
  have hsq := oldest_not_squashed hw hl h hf
  have hsau := ((Core.cycle_eq_some h).feedbacks hw).1
  simp only [World.act, World.flightAfter, hfl, Bool.false_eq_true, if_false, hret,
    List.length_nil, List.drop_zero]
  rw [hf, List.filter_cons_of_pos (by simp [hsq, FlushFeedback.squashesEqual, hsau])]
  exact ⟨_, rfl⟩

/-! ## The stores in flight -/

/-- What a cycle renames is written down, and what stays keeps what is written. -/
theorem placed_step (hw : w.Holds g₀) (hp : ∀ f ∈ w.flight, f.Placed) (hl : inp.Legal w)
    (h : w.core.cycle inp = some r) : ∀ f ∈ (w.act r).flight, f.Placed := by
  obtain ⟨-, -, -, hturns⟩ := cycle_stores hw hl h
  intro f hf
  rcases mem_flightAfter hf with hold | ⟨t, htm, hi, hafter⟩
  · exact hp f hold
  · obtain ⟨s, hs, hpl⟩ := hturns t htm
    have := hpl.placed hs f.releasedBefore
    rwa [← hi, ← hafter] at this

theorem Reachable.placed (h : Reachable w) : ∀ f ∈ w.flight, f.Placed := by
  induction h with
  | init => simp [World.init]
  | cycle inp r hrun hl _ hr ih =>
    obtain ⟨g₀, hw⟩ := Reachable.holds hrun
    exact placed_step hw ih hl hr

/-- The entries of the store buffer in use, oldest first. -/
def World.storesInUse (w : World) : List Nat :=
  Fifo.walk w.core.storeBuffer.ring w.core.storeBuffer.ring

/-- **The store buffer is the stores in flight.** -/
theorem Reachable.storesInUse (h : Reachable w) :
    w.storesInUse = w.flight.filterMap fun f => f.info.storeSlot := by
  obtain ⟨g, hw⟩ := h.holds
  have hplaced := h.placed
  rw [← hw.flight] at hplaced
  have hsb := hw.inv.sb
  have hentries : Window.EachAt advance (fun σ f => f.info.takesStoreBuffer = true →
      f.info.storeBufferId = σ.sb % storeBufferSize) g.base g.flight :=
    hw.inv.entries.imp fun l₁ f l₂ hl he ht =>
      he.storeSlot (hplaced f (by rw [hl]; exact List.mem_append_right _ (List.mem_cons_self ..))) ht
  have hslots := slots_tip (n := storeBufferSize) (c := Shadow.sb)
    (fun f => f.info.takesStoreBuffer) (fun f => f.info.storeBufferId) (fun _ _ => rfl) (fun _ _ he ht => he ht) hentries
  rw [World.storesInUse, Fifo.walk_eq (by decide) hsb.rptr hsb.wptr hsb.le hsb.size]
  refine hslots.trans ?_
  rw [hw.flight, ← List.filterMap_eq_map, List.filterMap_filter]
  refine List.filterMap_congr fun f _ => ?_
  simp only [OpInfo.storeSlot, Function.comp_apply]

/-! ## The invariant -/

/-- **Whose entry is whose, and what the flag of commit stands for.** -/
structure StoresOk (w : World) : Prop where
  placed : ∀ f ∈ w.flight, f.Placed
  entry : ∀ f ∈ w.flight,
    (w.core.rob.buffer f.info.robId.id).storeBufferId = f.info.storeBufferId
  waiting : w.core.isWaitingAck = true → ∃ f rest, w.flight = f :: rest
    ∧ w.core.Asks (w.core.rob.buffer f.info.robId.id)

theorem storesOk_init : StoresOk World.init where
  placed := by simp [World.init]
  entry := by simp [World.init]
  waiting := fun h => by cases h

/-- The entry of a finished store is nobody's to write. -/
theorem finished_untouched (hw : w.Holds g₀) (hok : StoresOk w) (ht : inp.Timely w) {f : Flight}
    (hf : f ∈ w.flight) (hfin : (w.core.rob.buffer f.info.robId.id).finish = true)
    (hs : f.info.takesStoreBuffer = true) :
    (∀ rev, inp.sau = some rev → rev.storeBufferId ≠ f.info.storeBufferId)
      ∧ (∀ rev, inp.sdu = some rev → rev.storeBufferId ≠ f.info.storeBufferId)
      ∧ w.core.merged inp.commit.executeCommitPort f.info.robId.id
        = w.core.rob.buffer f.info.robId.id := by
  have hslots := hw.storeSlots hok.placed
  have hslot : f.info.storeSlot = some f.info.storeBufferId := by rw [OpInfo.storeSlot, if_pos hs]
  have hother : ∀ f' ∈ w.flight, (w.core.rob.buffer f'.info.robId.id).finish = false →
      ∀ rev, f'.info.StorePart rev → rev.storeBufferId ≠ f.info.storeBufferId := by
    intro f' hf' hfin' rev hpart he
    have hsame : f'.info.storeSlot = f.info.storeSlot := by rw [hpart.slot, he, hslot]
    -- two members of the window with one slot are the same member
    have heq : f' = f := by
      rw [List.nodup_iff_pairwise_ne, List.pairwise_filterMap] at hslots
      by_contra hne
      rcases List.Pairwise.forall_of_forall_of_flip (R := fun a b => a = b ∨ ∀ x, a.info.storeSlot
        = some x → ∀ y, b.info.storeSlot = some y → x ≠ y) (l := w.flight) (fun _ _ => .inl rfl)
        (hslots.imp fun h => .inr h) (hslots.imp fun h => .inr fun x hx y hy => (h y hy x hx).symm)
        hf' hf with h | h
      · exact hne h
      · exact h _ (hsame.trans hslot) _ hslot rfl
    rw [heq, hfin] at hfin'
    cases hfin'
  refine ⟨fun rev hr => ?_, fun rev hr => ?_, ?_⟩
  · obtain ⟨f', hf', hpart, hfin'⟩ := ht.sau rev hr
    exact hother f' hf' hfin' rev hpart
  · obtain ⟨f', hf', hpart, hfin'⟩ := ht.sdu rev hr
    exact hother f' hf' hfin' rev hpart
  · rcases w.core.merged_cases inp.commit.executeCommitPort f.info.robId.id with
      hm | ⟨rev, hrev, hen, hid, -⟩
    · exact hm
    · have := ht.results rev hrev hen
      rw [hid, hfin] at this
      cases this

/-- An entry that asks belongs to a store. -/
theorem Core.Asks.takes (hw : w.Holds g₀) {f : Flight} (hf : f ∈ w.flight)
    (ha : w.core.Asks (w.core.rob.buffer f.info.robId.id)) : f.info.takesStoreBuffer = true := by
  rw [← hw.flight] at hf
  obtain ⟨l₁, l₂, hl⟩ := List.append_of_mem hf
  have he := hw.inv.entry hl
  have hitem := he.item.storeBuffer
  rw [← Ptr.fold_id, ← he.robId, ha.store] at hitem
  exact hitem.symm

/-- **The oldest store keeps its two entries** as long as it stays. -/
theorem oldest_entries_kept (hw : w.Holds g₀) (hok : StoresOk w) (hl : inp.Legal w)
    (ht : inp.Timely w) (h : w.core.cycle inp = some r) (hnext : (w.act r).Holds g)
    (hplaced : ∀ f ∈ (w.act r).flight, f.Placed) {f : Flight} {rest : List Flight}
    (hf : w.flight = f :: rest) (hret : r.commit.retired = [])
    (hfl : r.commit.feedback.flush = false)
    (ha : w.core.Asks (w.core.rob.buffer f.info.robId.id)) :
    (∃ rest', (w.act r).flight = f :: rest')
      ∧ r.next.rob.buffer f.info.robId.id = w.core.rob.buffer f.info.robId.id
      ∧ r.next.storeCell f.info.storeBufferId = w.core.storeCell f.info.storeBufferId := by
  obtain ⟨l, hf'⟩ := oldest_stays hw hl h hf hret hfl
  refine ⟨⟨_, hf'⟩, ?_⟩
  have hmem : f ∈ w.flight := by rw [hf]; exact List.mem_cons_self ..
  have hmem' : f ∈ (w.act r).flight := by rw [hf']; exact List.mem_cons_self ..
  have htakes := ha.takes hw hmem
  obtain ⟨hsau, hsdu, hmerged⟩ := finished_untouched hw hok ht hmem ha.finish htakes
  have hslot : f.info.storeSlot = some f.info.storeBufferId := by
    rw [OpInfo.storeSlot, if_pos htakes]
  -- a renamed store is behind `f` in the new window, so it owns another entry
  have hturn : ∀ t ∈ r.rename.turns, t.1.robId.id ≠ f.info.robId.id
      ∧ t.1.storeSlot ≠ some f.info.storeBufferId := by
    intro t htm
    have hnd := hnext.slots_nodup
    have hns := hnext.storeSlots hplaced
    have hcons : (f :: (l ++ flights (w.released ++ releasedIds r.commit.retired).length
        r.rename.turns)).filterMap (fun f => f.info.storeSlot) = f.info.storeBufferId ::
          (l ++ flights (w.released ++ releasedIds r.commit.retired).length
            r.rename.turns).filterMap fun f => f.info.storeSlot := List.filterMap_cons_some hslot
    rw [hf', List.map_cons, List.nodup_cons] at hnd
    rw [hf', hcons, List.nodup_cons] at hns
    have hin : (⟨t.1, t.2, (w.released ++ releasedIds r.commit.retired).length⟩ : Flight)
        ∈ l ++ flights (w.released ++ releasedIds r.commit.retired).length r.rename.turns :=
      List.mem_append_right _ (List.mem_map_of_mem htm)
    refine ⟨fun he => hnd.1 ?_, fun he => hns.1 ?_⟩
    · rw [← he]
      exact List.mem_map.mpr ⟨_, hin, rfl⟩
    · exact List.mem_filterMap.mpr ⟨_, hin, he⟩
  refine ⟨?_, ?_⟩
  · cases cycle_survives hw hl h hnext f hmem' with
    | kept _ _ hc => rw [hc, hmerged]
    | renamed t htm hi _ => exact absurd (congrArg (·.robId.id) hi).symm (hturn t htm).1
  · obtain ⟨-, -, hstore, -⟩ := cycle_stores hw hl h
    rw [hstore _ hsau hsdu fun t htm => (hturn t htm).2,
      (cycle_storeEffect hw h).sameCells.storeCell, early_storeCell w.core hsau]

/-- **What the oldest store asks for does not change** as long as it stays. -/
theorem asks_kept (hw : w.Holds g₀) (hok : StoresOk w) (hl : inp.Legal w) (ht : inp.Timely w)
    (h : w.core.cycle inp = some r) (hnext : (w.act r).Holds g)
    (hplaced : ∀ f ∈ (w.act r).flight, f.Placed) {f : Flight} {rest : List Flight}
    (hf : w.flight = f :: rest) (hret : r.commit.retired = [])
    (hfl : r.commit.feedback.flush = false)
    (ha : w.core.Asks (w.core.rob.buffer f.info.robId.id)) :
    ∃ rest', (w.act r).flight = f :: rest' ∧ r.next.Asks (r.next.rob.buffer f.info.robId.id) := by
  obtain ⟨⟨rest', hf'⟩, hcell, hsame⟩ :=
    oldest_entries_kept hw hok hl ht h hnext hplaced hf hret hfl ha
  refine ⟨rest', hf', ?_⟩
  have hmem : f ∈ w.flight := by rw [hf]; exact List.mem_cons_self ..
  rw [hcell]
  refine ⟨ha.finish, ha.hasException, ha.noLoad, ha.store, ?_⟩
  have hd := ha.device
  simp only [Core.storeOf, hok.entry f hmem] at hd ⊢
  rwa [show r.next.storeBuffer.itemAddr f.info.storeBufferId
    = w.core.storeBuffer.itemAddr f.info.storeBufferId from congrArg Prod.fst hsame]

/-- **A cycle keeps the owners and the flag.** -/
theorem storesOk_step (hw : w.Holds g₀) (hok : StoresOk w) (hl : inp.Legal w) (ht : inp.Timely w)
    (h : w.core.cycle inp = some r) (hnext : (w.act r).Holds g) : StoresOk (w.act r) := by
  obtain ⟨-, hwait, -, hturns⟩ := cycle_stores hw hl h
  have hplaced := placed_step hw hok.placed hl h
  refine ⟨hplaced, fun f hf => ?_, fun hwaits => ?_⟩
  · change (r.next.rob.buffer f.info.robId.id).storeBufferId = f.info.storeBufferId
    cases cycle_survives hw hl h hnext f hf with
    | kept hold _ hc =>
      rw [hc, ← hok.entry f hold]
      rcases w.core.merged_cases inp.commit.executeCommitPort f.info.robId.id with
        hm | ⟨rev, -, -, -, hm⟩
      · rw [hm]
      · rw [hm]
        rfl
    | renamed t htm hi _ =>
      obtain ⟨s, hs, hp⟩ := hturns t htm
      rw [hi, cycle_recorded hw hl h hnext htm]
      exact hp.entry
  · change r.next.isWaitingAck = true at hwaits
    rw [hwait] at hwaits
    obtain ⟨hack, -⟩ := early_waits w.core inp
    have hfront := hw.front (early_sameWindow w.core inp)
    cases cycle_storeEffect hw h with
    | quiet hn hs _ =>
      rw [hs.waiting, hack] at hwaits
      obtain ⟨f, rest, hf, ha⟩ := hok.waiting hwaits
      rw [hf] at hfront
      exact absurd ha (hn _ hfront)
    | pushed _ _ _ _ _ _ _ _ _ _ _ _ hw' _ =>
      rw [hw'] at hwaits
      cases hwaits
    | asked id hid ha hret hfl _ _ _ _ =>
      rw [hfront] at hid
      cases hf : w.flight with
      | nil =>
        rw [hf] at hid
        cases hid
      | cons f rest =>
        rw [hf] at hid
        cases hid
        obtain ⟨rest', hf', ha'⟩ := asks_kept hw hok hl ht h hnext hplaced hf hret hfl ha
        exact ⟨f, rest', hf', ha'⟩
    | waits hret hfl hw' _ _ =>
      rw [hack] at hw'
      obtain ⟨f, rest, hf, ha⟩ := hok.waiting hw'
      obtain ⟨rest', hf', ha'⟩ := asks_kept hw hok hl ht h hnext hplaced hf hret hfl ha
      exact ⟨f, rest', hf', ha'⟩
    | answered _ _ _ _ _ _ _ hw' _ _ =>
      rw [hw'] at hwaits
      cases hwaits
    | failed _ _ _ hw' _ _ =>
      rw [hw'] at hwaits
      cases hwaits

end DreamCore
