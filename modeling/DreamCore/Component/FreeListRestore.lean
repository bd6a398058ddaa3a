import DreamCore.Component.FifoQueue
import DreamCore.Component.FreeList
import DreamCore.Lib.Ages
import Mathlib.Data.List.Perm.Subperm

/-!
# Taking pops back

`restore` moves the read pointer to where `save` found it, and every id popped since
is free again. Nothing in the class keeps the slots of these ids: that no push has
reused one is a matter of counting. There are `n` ids, the ones popped since the save,
the ones in the list and one more to be pushed are all different, so the write pointer
is still less than a ring ahead of the saved place.

The producer and the customer look at registered pointers. So a push in the cycle of
the save does not see the room of that cycle's pops, and `restore` measures the list
from the read pointer the cycle began with.
-/

namespace DreamCore

open Ring

namespace FreeList

variable {n : Nat} {cur new new' : FreeList n} {x : Nat}

/-! ## Histories -/

/-- What the calls of any number of cycles make of a free list. The two lists are its old and
its fresh values. -/
inductive Reachable (n : Nat) : FreeList n → FreeList n → Prop where
  | reset : Reachable n (reset n) (reset n)
  | push {cur new new' : FreeList n} {x : Nat} {ok : Bool} : Reachable n cur new →
      push cur new x = some (new', ok) → Reachable n cur new'
  | pop {cur new new' : FreeList n} {o : Option Nat} : Reachable n cur new →
      pop cur new = some (o, new') → Reachable n cur new'
  | restore {cur new new' : FreeList n} {p : Ptr} : Reachable n cur new →
      restore cur new p = some new' → Reachable n cur new'
  | sync {cur new : FreeList n} : Reachable n cur new → Reachable n new new

/-- `Since cur₀ new₀ c pushed popped cur new`: since the read pointer was saved in `cur₀`, `new₀`,
calls have pushed and popped these ids and led to `cur`, `new`; `c` says whether the cycle of the
save still lasts. A pushed id is neither in the list nor popped since the save, and in the cycle
of the save the producer sees room for it. -/
inductive Since (cur₀ new₀ : FreeList n) :
    Bool → List Nat → List Nat → FreeList n → FreeList n → Prop where
  | save : Since cur₀ new₀ true [] [] cur₀ new₀
  | push {c : Bool} {pushed popped : List Nat} {cur new new' : FreeList n} {x : Nat} {ok : Bool} :
      Since cur₀ new₀ c pushed popped cur new →
      x < n → x ∉ new.contents → x ∉ popped →
      (c = true → Fifo.producerIsFull cur.ring new.ring = false) →
      push cur new x = some (new', ok) → Since cur₀ new₀ c (pushed ++ [x]) popped cur new'
  | pop {c : Bool} {pushed popped : List Nat} {cur new new' : FreeList n} {o : Option Nat} :
      Since cur₀ new₀ c pushed popped cur new →
      pop cur new = some (o, new') → Since cur₀ new₀ c pushed (popped ++ o.toList) cur new'
  | sync {c : Bool} {pushed popped : List Nat} {cur new : FreeList n} :
      Since cur₀ new₀ c pushed popped cur new → Since cur₀ new₀ false pushed popped new new

/-! ## The reset -/

/-- The first `k` turns of the loop. -/
theorem reset_pushes_upTo (hn : 0 < n) (old : Fifo n Nat) {k : Nat} (hk : k ≤ n) :
    ∃ ring, (List.range k).foldlM Fifo.newPush (Fifo.flush old) = some ring ∧
      ring.rptr = Ptr.fold n 0 ∧ ring.wptr = Ptr.fold n k ∧
      ∀ i, i < k → ring.buffer i = i := by
  induction k with
  | zero =>
      have hzero := (Ptr.fold_zero n).symm
      exact ⟨Fifo.flush old, rfl, hzero, hzero, fun i hi => absurd hi (Nat.not_lt_zero i)⟩
  | succ k ih =>
      obtain ⟨ring, hrun, hrptr, hwptr, hcells⟩ := ih (by omega)
      have hfull : Fifo.newIsFull ring = false := by
        rw [Fifo.newIsFull, hrptr, hwptr, Ptr.full_comm, Bool.eq_false_iff, Ne,
          Ptr.full_fold hn (Nat.zero_le k) (by omega)]
        omega
      let next : Fifo n Nat := { ring with
        buffer := Function.update ring.buffer k k
        wptr := Ptr.fold n (k + 1) }
      have hpush : Fifo.newPush ring k = some next := by
        rw [Fifo.newPush, if_neg (by rw [hfull]; exact Bool.false_ne_true), hwptr,
          Ptr.next_fold hn, Ptr.fold_id, Nat.mod_eq_of_lt hk]
      refine ⟨next, ?_, hrptr, rfl, fun i hi => ?_⟩
      · rw [List.range_succ, List.foldlM_append, hrun]
        simp only [Option.bind_eq_bind, Option.bind_some, List.foldlM_cons, hpush,
          List.foldlM_nil, Option.pure_def]
      · by_cases hik : i = k
        · exact hik ▸ Function.update_self ..
        · exact (Function.update_of_ne hik ..).trans (hcells i (by omega))

/-- **The loop of `reset`**: over whatever the cells held, pushing every id in order leaves the
list `reset` stands for. -/
theorem reset_pushes (hn : 0 < n) (old : Fifo n Nat) :
    ∃ ring, (List.range n).foldlM Fifo.newPush (Fifo.flush old) = some ring ∧
      ring.rptr = (reset n).ring.rptr ∧ ring.wptr = (reset n).ring.wptr ∧
      ∀ i, i < n → ring.buffer i = (reset n).ring.buffer i := by
  obtain ⟨ring, hrun, hrptr, hwptr, hcells⟩ := reset_pushes_upTo hn old (Nat.le_refl n)
  exact ⟨ring, hrun, hrptr.trans (Ptr.fold_zero n), hwptr.trans (Ptr.fold_self hn), hcells⟩

/-! ## There are only `n` ids -/

theorem length_le_of_small {l : List Nat} (hl : l.Nodup) (hsmall : ∀ y ∈ l, y < n) :
    l.length ≤ n := by
  have hsub : l ⊆ List.range n := fun y hy => List.mem_range.mpr (hsmall y hy)
  have := (List.subperm_of_subset hl hsub).length_le
  rwa [List.length_range] at this

/-- A list of ids that lacks one is shorter. -/
theorem length_lt_of_missing {l : List Nat} (hl : l.Nodup) (hsmall : ∀ y ∈ l, y < n)
    (hx : x < n) (hnot : x ∉ l) : l.length < n := by
  have hcons : (x :: l).Nodup := List.nodup_cons.mpr ⟨hnot, hl⟩
  refine length_le_of_small hcons fun y hy => ?_
  rcases List.mem_cons.mp hy with rfl | hy
  · exact hx
  · exact hsmall y hy

/-! ## What holds of every free list -/

/-- The pointers as counters: the cycle began with what lies between `a` and `b`, the list is now
what lies between `r` and `w`. After a restore `r` may lie before `a`. -/
structure Sound (cur new : FreeList n) (a b r w : Nat) : Prop where
  oldRptr : cur.ring.rptr = Ptr.fold n a
  oldWptr : cur.ring.wptr = Ptr.fold n b
  rptr : new.ring.rptr = Ptr.fold n r
  wptr : new.ring.wptr = Ptr.fold n w
  old_le : a ≤ b
  le_old : r ≤ b
  grows : b ≤ w
  old_size : w ≤ a + n
  size : w ≤ r + n
  /-- Only this cycle's pushes have changed a cell. -/
  frame : ∀ i, (∀ k, b ≤ k → k < w → i ≠ k % n) → new.ring.buffer i = cur.ring.buffer i
  oldSmall : ∀ k, cur.ring.buffer (k % n) < n
  small : ∀ k, new.ring.buffer (k % n) < n
  nodup : (slots n new.ring.buffer r w).Nodup
  set : new.freeListSet.Perm (slots n new.ring.buffer r w)

namespace Sound

variable {a b r w : Nat}

theorem le (h : Sound cur new a b r w) : r ≤ w := Nat.le_trans h.le_old h.grows

theorem contents_eq (hn : 0 < n) (h : Sound cur new a b r w) :
    new.contents = slots n new.ring.buffer r w :=
  Fifo.Window.contents_eq hn ⟨h.rptr, h.wptr, h.le, h.size⟩

theorem slots_small (h : Sound cur new a b r w) (s t : Nat) :
    ∀ y ∈ slots n new.ring.buffer s t, y < n := by
  intro y hy
  obtain ⟨k, -, -, rfl⟩ := mem_slots.mp hy
  exact h.small k

/-- The size the class checks itself with. -/
theorem sizeOk (hn : 0 < n) (h : Sound cur new a b r w) : sizeOk new = true := by
  rw [FreeList.sizeOk, beq_iff_eq, h.set.length_eq, slots_length, Fifo.newGetUsedSpace, h.rptr,
    h.wptr, Ptr.gap_fold hn h.le h.size]

theorem isFull_iff (hn : 0 < n) (h : Sound cur new a b r w) :
    Fifo.producerIsFull cur.ring new.ring = true ↔ w = a + n :=
  Fifo.producerIsFull_iff hn h.oldRptr h.wptr (Nat.le_trans h.old_le h.grows) h.old_size

/-- A cell that neither holds a fresh push nor will be reused by one keeps its old value. -/
theorem cell_eq (h : Sound cur new a b r w) {s k : Nat} (hw : w ≤ s + n) (hk : s ≤ k)
    (hkb : k < b) : new.ring.buffer (k % n) = cur.ring.buffer (k % n) :=
  h.frame _ fun _ hj hjw => mod_ne_of_window (by omega) (by omega)

theorem reset (hn : 0 < n) : Sound (reset n) (FreeList.reset n) 0 n 0 n := by
  have hslots : slots n (FreeList.reset n).ring.buffer 0 n = List.range n := by
    rw [slots, Nat.sub_zero, ← List.range_eq_range']
    exact (List.map_congr_left fun k hk => Nat.mod_eq_of_lt (List.mem_range.mp hk)).trans
      (List.map_id _)
  have hfull := (Ptr.fold_self hn).symm
  have hzero := (Ptr.fold_zero n).symm
  exact
    { oldRptr := hzero
      oldWptr := hfull
      rptr := hzero
      wptr := hfull
      old_le := Nat.zero_le n
      le_old := Nat.zero_le n
      grows := Nat.le_refl n
      old_size := by omega
      size := by omega
      frame := fun _ _ => rfl
      oldSmall := fun k => Nat.mod_lt k hn
      small := fun k => Nat.mod_lt k hn
      nodup := hslots ▸ List.nodup_range
      set := hslots ▸ List.Perm.refl _ }

/-- **A new id is pushed wherever the producer sees room**, with every check of the class. -/
theorem push_some (hn : 0 < n) (h : Sound cur new a b r w) (hx : x < n)
    (hfresh : x ∉ slots n new.ring.buffer r w) (hroom : w < a + n) :
    ∃ new', push cur new x = some (new', true) ∧ Sound cur new' a b r (w + 1) ∧
      new'.ring.buffer = Function.update new.ring.buffer (w % n) x := by
  have hsize : w < r + n := by
    have := length_lt_of_missing h.nodup (h.slots_small r w) hx hfresh
    rw [slots_length] at this
    omega
  have hset : x ∉ new.freeListSet := fun hmem => hfresh (h.set.mem_iff.mp hmem)
  have hle := h.le
  have hgrows := h.grows
  have hslots : slots n (Function.update new.ring.buffer (w % n) x) r (w + 1)
      = slots n new.ring.buffer r w ++ [x] := by
    rw [slots_succ_right _ hle, slots_update _ _ (Nat.le_refl w) hsize, Function.update_self]
  have hperm : (x :: new.freeListSet).Perm (slots n new.ring.buffer r w ++ [x]) :=
    (h.set.cons x).trans (List.perm_append_singleton x _).symm
  let new' : FreeList n := ⟨{ new.ring with
    buffer := Function.update new.ring.buffer (w % n) x
    wptr := Ptr.fold n (w + 1) }, x :: new.freeListSet⟩
  have hsound : Sound cur new' a b r (w + 1) :=
    { oldRptr := h.oldRptr
      oldWptr := h.oldWptr
      rptr := h.rptr
      wptr := rfl
      old_le := h.old_le
      le_old := h.le_old
      grows := by omega
      old_size := hroom
      size := hsize
      frame := by
        intro i hi
        have hne : i ≠ w % n := hi w hgrows (Nat.lt_succ_self w)
        exact (Function.update_of_ne hne ..).trans
          (h.frame i fun k hk hkw => hi k hk (Nat.lt_succ_of_lt hkw))
      oldSmall := h.oldSmall
      small := by
        intro k
        change Function.update new.ring.buffer (w % n) x (k % n) < n
        rw [Function.update_apply]
        split
        · exact hx
        · exact h.small k
      nodup := by
        have hnodup : (slots n new.ring.buffer r w ++ [x]).Nodup :=
          hperm.nodup_iff.mp (List.nodup_cons.mpr ⟨hset, h.set.nodup_iff.mpr h.nodup⟩)
        exact hslots ▸ hnodup
      set := hslots ▸ hperm }
  refine ⟨new', ?_, hsound, rfl⟩
  have hfull : Fifo.producerIsFull cur.ring new.ring = false := by
    rw [Bool.eq_false_iff, Ne, h.isFull_iff hn]
    omega
  have hring : Fifo.push cur.ring new.ring x = some new'.ring := by
    rw [Fifo.push, if_neg (by rw [hfull]; exact Bool.false_ne_true), h.wptr, Ptr.fold_id,
      Ptr.next_fold hn]
  have hok := hsound.sizeOk hn
  simp only [push, hring, Option.bind_eq_bind]
  simp [guard, hx, hset, hok, new']

/-- A push that finds the producer's view full changes nothing. -/
theorem push_full (hn : 0 < n) (h : Sound cur new a b r w) (hx : x < n)
    (hfresh : x ∉ slots n new.ring.buffer r w) (hroom : w = a + n) :
    push cur new x = some (new, false) := by
  have hset : x ∉ new.freeListSet := fun hmem => hfresh (h.set.mem_iff.mp hmem)
  have hring : Fifo.push cur.ring new.ring x = none := if_pos ((h.isFull_iff hn).mpr hroom)
  have hok := h.sizeOk hn
  simp only [push, hring, Option.bind_eq_bind]
  simp [guard, hx, hset, hok]

/-- **The oldest id the cycle began with is popped**, with every check of the class. -/
theorem pop_some (hn : 0 < n) (h : Sound cur new a b r w) (hlt : r < b) :
    ∃ new', pop cur new = some (some (new.ring.buffer (r % n)), new') ∧
      Sound cur new' a b (r + 1) w ∧ new'.ring.buffer = new.ring.buffer := by
  have hgrows := h.grows
  have hsize := h.size
  have hslots := slots_succ_left (n := n) new.ring.buffer (a := r) (b := w) (by omega)
  have hnodup := h.nodup
  rw [hslots, List.nodup_cons] at hnodup
  have hsmall := h.small r
  have hmem : new.ring.buffer (r % n) ∈ new.freeListSet :=
    h.set.mem_iff.mpr (hslots ▸ List.mem_cons_self)
  let new' : FreeList n := ⟨{ new.ring with rptr := Ptr.fold n (r + 1) },
    new.freeListSet.erase (new.ring.buffer (r % n))⟩
  have hsound : Sound cur new' a b (r + 1) w :=
    { h with
      rptr := rfl
      le_old := hlt
      size := by omega
      nodup := hnodup.2
      set := by
        have := h.set.erase (new.ring.buffer (r % n))
        rwa [hslots, List.erase_cons_head] at this }
  refine ⟨new', ?_, hsound, rfl⟩
  have hempty : Fifo.customerIsEmpty cur.ring new.ring = false := by
    rw [Bool.eq_false_iff, Ne, Fifo.customerIsEmpty_iff hn h.rptr h.oldWptr h.le_old (by omega)]
    omega
  have hring : Fifo.pop cur.ring new.ring = some (new.ring.buffer (r % n), new'.ring) := by
    rw [Fifo.pop, if_neg (by rw [hempty]; exact Bool.false_ne_true), h.rptr, Ptr.fold_id,
      Ptr.next_fold hn, h.cell_eq hsize (Nat.le_refl r) hlt]
  have hok := hsound.sizeOk hn
  simp only [pop, hring, Option.bind_eq_bind]
  simp [guard, hsmall, hmem, hok, new']

/-- A pop that finds nothing the cycle began with changes nothing. -/
theorem pop_none (hn : 0 < n) (h : Sound cur new a b r w) (heq : r = b) :
    pop cur new = some (none, new) := by
  have hgrows := h.grows
  have hsize := h.size
  have hring : Fifo.pop cur.ring new.ring = none :=
    if_pos ((Fifo.customerIsEmpty_iff hn h.rptr h.oldWptr h.le_old (by omega)).mpr heq)
  have hok := h.sizeOk hn
  simp only [pop, hring, Option.bind_eq_bind]
  simp [guard, hok]

theorem sync (h : Sound cur new a b r w) : Sound new new r w r w where
  oldRptr := h.rptr
  oldWptr := h.wptr
  rptr := h.rptr
  wptr := h.wptr
  old_le := h.le
  le_old := h.le
  grows := Nat.le_refl w
  old_size := h.size
  size := h.size
  frame := fun _ _ => rfl
  oldSmall := h.small
  small := h.small
  nodup := h.nodup
  set := h.set

/-- The read pointer is that of the cycle's start only where the counters are the same. -/
theorem rptr_eq_iff (h : Sound cur new a b r w) (hn : 0 < n) :
    cur.ring.rptr = new.ring.rptr ↔ a = r := by
  have h₁ := h.old_le
  have h₂ := h.le_old
  have h₃ := h.grows
  have h₄ := h.old_size
  have h₅ := h.size
  rw [h.oldRptr, h.rptr]
  exact ⟨fun heq => Ptr.fold_inj_two (n := n) (by omega) (by omega) heq, fun heq => by rw [heq]⟩

end Sound

/-! ## The walk of `restore` -/

/-- What the walk adds, wherever it starts: the cells up to the old read pointer, all new to
the set. -/
theorem restoreLoop_eq_some (hn : 0 < n) {fuel k : Nat} {set set' : List Nat}
    (h : restoreLoop cur fuel (Ptr.fold n k) set = some set') :
    ∃ d, d ≤ fuel ∧ Ptr.fold n (k + d) = cur.ring.rptr ∧
      set'.Perm (slots n cur.ring.buffer k (k + d) ++ set) ∧ (set.Nodup → set'.Nodup) := by
  induction fuel generalizing k set with
  | zero =>
      rw [restoreLoop] at h
      split at h
      · rename_i heq
        cases h
        exact ⟨0, Nat.le_refl 0, eq_of_beq heq, by simp, id⟩
      · cases h
  | succ fuel ih =>
      rw [restoreLoop] at h
      split at h
      · rename_i heq
        cases h
        exact ⟨0, Nat.zero_le _, eq_of_beq heq, by simp, id⟩
      · rw [Option.bind_eq_bind, Option.bind_eq_some_iff] at h
        obtain ⟨_, hnew, h⟩ := h
        have hnew : cur.ring.buffer (k % n) ∉ set := fun hmem => by
          simp [guard, hmem] at hnew
        rw [Ptr.next_fold hn, Ptr.fold_id] at h
        obtain ⟨d, hd, hend, hperm, hnodup⟩ := ih h
        refine ⟨d + 1, by omega, by rw [← hend]; congr 1; omega, ?_, fun hset =>
          hnodup (List.nodup_cons.mpr ⟨hnew, hset⟩)⟩
        rw [slots_succ_left _ (by omega), show k + (d + 1) = k + 1 + d by omega]
        exact hperm.trans List.perm_middle

/-- **The walk succeeds where the cells are new to the set.** -/
theorem restoreLoop_some (hn : 0 < n) {fuel k a : Nat} {set : List Nat}
    (hc : cur.ring.rptr = Ptr.fold n a) (hk : k ≤ a) (hak : a ≤ k + n) (hfuel : a - k ≤ fuel)
    (hnodup : (slots n cur.ring.buffer k a ++ set).Nodup) :
    ∃ set', restoreLoop cur fuel (Ptr.fold n k) set = some set' ∧
      set'.Perm (slots n cur.ring.buffer k a ++ set) := by
  induction fuel generalizing k set with
  | zero =>
      have heq : k = a := by omega
      refine ⟨set, ?_, by rw [heq, slots_self]; exact List.Perm.refl _⟩
      rw [restoreLoop, hc, heq, if_pos (beq_self_eq_true _)]
  | succ fuel ih =>
      by_cases heq : k = a
      · refine ⟨set, ?_, by rw [heq, slots_self]; exact List.Perm.refl _⟩
        rw [restoreLoop, hc, heq, if_pos (beq_self_eq_true _)]
      · rw [slots_succ_left _ (by omega), List.cons_append] at hnodup ⊢
        have hne : ¬(Ptr.fold n k == cur.ring.rptr) = true := by
          rw [beq_iff_eq, hc, Ptr.fold_eq_iff hn hk hak]
          exact heq
        have hnew : cur.ring.buffer (k % n) ∉ set := fun hmem =>
          (List.nodup_cons.mp hnodup).1 (List.mem_append_right _ hmem)
        have hrest : (slots n cur.ring.buffer (k + 1) a ++ cur.ring.buffer (k % n) :: set).Nodup :=
          List.perm_middle.nodup_iff.mpr hnodup
        obtain ⟨set', hloop, hperm⟩ := ih (by omega) (by omega) (by omega) hrest
        refine ⟨set', ?_, hperm.trans List.perm_middle⟩
        rw [restoreLoop, if_neg hne, Ptr.fold_id, Ptr.next_fold hn]
        simp [guard, hnew, hloop]

namespace Sound

variable {a b r w s : Nat}

/-- **Moving the read pointer back** over cells whose ids are new to the set. -/
theorem rewind (h : Sound cur new a b r w) (har : a = r) (hs : s ≤ r)
    (hw : w ≤ s + n) {set : List Nat} (hnodup : set.Nodup)
    (hset : set.Perm (slots n cur.ring.buffer s a ++ new.freeListSet)) :
    Sound cur ⟨{ new.ring with rptr := Ptr.fold n s }, set⟩ a b s w := by
  have hold := h.le_old
  have hcells : slots n cur.ring.buffer s a = slots n new.ring.buffer s a :=
    slots_congr fun k hk hka => (h.cell_eq hw hk (by omega)).symm
  have hall : set.Perm (slots n new.ring.buffer s w) := by
    rw [hcells] at hset
    have hboth := hset.trans (h.set.append_left (slots n new.ring.buffer s a))
    rwa [har, slots_append _ hs h.le] at hboth
  exact
    { h with
      rptr := rfl
      le_old := by omega
      size := hw
      nodup := hall.nodup_iff.mp hnodup
      set := hall }

/-- **A restore before the first pop of its cycle succeeds**, with every check of the class. -/
theorem restore_some (hn : 0 < n) (h : Sound cur new a b r w) (har : a = r) (hs : s ≤ r)
    (hw : w ≤ s + n) (hnodup : (slots n new.ring.buffer s w).Nodup) :
    ∃ new', restore cur new (Ptr.fold n s) = some new' ∧ Sound cur new' a b s w ∧
      new'.ring.buffer = new.ring.buffer := by
  have hle := h.le
  have hold := h.le_old
  have hcells : slots n cur.ring.buffer s a = slots n new.ring.buffer s a :=
    slots_congr fun k hk hka => (h.cell_eq hw hk (by omega)).symm
  have hwalk : (slots n cur.ring.buffer s a ++ new.freeListSet).Nodup := by
    rw [hcells, (h.set.append_left _).nodup_iff, har, slots_append _ hs hle]
    exact hnodup
  obtain ⟨set, hloop, hset⟩ := restoreLoop_some hn h.oldRptr (by omega : s ≤ a) (by omega)
    (by omega : a - s ≤ 2 * n) hwalk
  have hsound := h.rewind har hs hw (hset.nodup_iff.mpr hwalk) hset
  refine ⟨_, ?_, hsound, rfl⟩
  have hid : s % n < n := Nat.mod_lt s hn
  have hused : Fifo.producerGetUsedSpace cur.ring new.ring = new.freeListSet.length := by
    rw [Fifo.producerGetUsedSpace, h.oldRptr, h.wptr, Ptr.gap_fold hn (by omega) h.old_size,
      h.set.length_eq, slots_length, har]
  have hok := hsound.sizeOk hn
  simp only [restore, hloop, hused, Option.bind_eq_bind]
  simp [guard, hid, hok]

/-- The counters may all be moved by two rings. -/
theorem shift (hn : 0 < n) (h : Sound cur new a b r w) :
    Sound cur new (a + 2 * n) (b + 2 * n) (r + 2 * n) (w + 2 * n) := by
  have hslots : slots n new.ring.buffer (r + 2 * n) (w + 2 * n)
      = slots n new.ring.buffer r w := by
    have hle := h.le
    have := Ptr.slots_shift hn new.ring.buffer (Ptr.fold_add_two hn r) (w - r)
    rwa [show r + 2 * n + (w - r) = w + 2 * n by omega, show r + (w - r) = w by omega] at this
  have h₁ := h.old_le
  have h₂ := h.le_old
  have h₃ := h.grows
  have h₄ := h.old_size
  have h₅ := h.size
  exact
    { oldRptr := (Ptr.fold_add_two hn a).symm ▸ h.oldRptr
      oldWptr := (Ptr.fold_add_two hn b).symm ▸ h.oldWptr
      rptr := (Ptr.fold_add_two hn r).symm ▸ h.rptr
      wptr := (Ptr.fold_add_two hn w).symm ▸ h.wptr
      old_le := by omega
      le_old := by omega
      grows := by omega
      old_size := by omega
      size := by omega
      frame := by
        intro i hi
        refine h.frame i fun k hk hkw => ?_
        have := hi (k + 2 * n) (by omega) (by omega)
        rwa [Nat.add_mul_mod_self_right] at this
      oldSmall := h.oldSmall
      small := h.small
      nodup := hslots ▸ h.nodup
      set := hslots ▸ h.set }

/-- **Whatever pointer a restore is given, where no check fails the list is sound.** The walk
has met `d` ids that were not in the set, so with the list they are no more than `n`. -/
theorem restore (hn : 0 < n) (h : Sound cur new a b r w) {p : Ptr}
    (hr : FreeList.restore cur new p = some new') : ∃ a b r w, Sound cur new' a b r w := by
  simp only [FreeList.restore, Option.bind_eq_bind, Option.bind_eq_some_iff] at hr
  obtain ⟨_, hp, _, hused, set, hloop, _, -, hr⟩ := hr
  cases hr
  have hle := h.le
  have hold : a ≤ w := Nat.le_trans h.old_le h.grows
  have hp : p.id < n := by
    by_contra hno
    simp [guard, hno] at hp
  have har : a = r := by
    have hlen : Fifo.producerGetUsedSpace cur.ring new.ring = new.freeListSet.length := by
      by_contra hno
      simp [guard, hno] at hused
    rw [Fifo.producerGetUsedSpace, h.oldRptr, h.wptr, Ptr.gap_fold hn hold h.old_size,
      h.set.length_eq, slots_length] at hlen
    omega
  obtain ⟨k, rfl⟩ := Ptr.exists_fold hp
  obtain ⟨d, hd, hend, hperm, hnodup⟩ := restoreLoop_eq_some hn hloop
  -- the walk ends at the old read pointer, so it began `d` places before it
  have hfar := Ptr.fold_shift hn (hend.trans h.oldRptr) (2 * n - d)
  rw [show k + d + (2 * n - d) = k + 2 * n by omega, Ptr.fold_add_two hn] at hfar
  have hset := hnodup (h.set.nodup_iff.mpr h.nodup)
  have hcells := Ptr.slots_shift hn cur.ring.buffer hfar d
  rw [show a + (2 * n - d) + d = a + 2 * n by omega] at hcells
  rw [hcells] at hperm
  have hroom : d + (w - r) ≤ n := by
    have hsmall : ∀ y ∈ set, y < n := by
      intro y hy
      rcases List.mem_append.mp (hperm.mem_iff.mp hy) with hy | hy
      · obtain ⟨j, -, -, rfl⟩ := mem_slots.mp hy
        exact h.oldSmall j
      · exact h.slots_small r w y (h.set.mem_iff.mp hy)
    have := length_le_of_small hset hsmall
    rw [hperm.length_eq, List.length_append, slots_length, h.set.length_eq, slots_length] at this
    omega
  rw [hfar]
  exact ⟨_, _, _, _, (h.shift hn).rewind (by omega) (by omega) (by omega) hset hperm⟩

end Sound

/-- The checks of `push` on its argument. -/
theorem push_checks {ok : Bool} (h : push cur new x = some (new', ok)) :
    x < n ∧ x ∉ new.freeListSet := by
  simp only [push, Option.bind_eq_bind, Option.bind_eq_some_iff] at h
  obtain ⟨_, hx, _, hset, -⟩ := h
  refine ⟨?_, fun hmem => ?_⟩
  · by_contra hno
    simp [guard, hno] at hx
  · simp [guard, hmem] at hset

/-- **Every free list is sound.** -/
theorem reachable_sound (hn : 0 < n) (h : Reachable n cur new) :
    ∃ a b r w, Sound cur new a b r w := by
  induction h with
  | reset => exact ⟨0, n, 0, n, Sound.reset hn⟩
  | push _ hpush ih =>
      obtain ⟨a, b, r, w, h⟩ := ih
      obtain ⟨hx, hset⟩ := push_checks hpush
      have hfresh := mt h.set.mem_iff.mpr hset
      by_cases hroom : w < a + n
      · obtain ⟨new₁, hpush', h', -⟩ := h.push_some hn hx hfresh hroom
        cases hpush.symm.trans hpush'
        exact ⟨a, b, r, w + 1, h'⟩
      · have hold := h.old_size
        cases hpush.symm.trans (h.push_full hn hx hfresh (by omega))
        exact ⟨a, b, r, w, h⟩
  | pop _ hpop ih =>
      obtain ⟨a, b, r, w, h⟩ := ih
      by_cases hlt : r < b
      · obtain ⟨new₁, hpop', h', -⟩ := h.pop_some hn hlt
        cases hpop.symm.trans hpop'
        exact ⟨a, b, r + 1, w, h'⟩
      · have hold := h.le_old
        cases hpop.symm.trans (h.pop_none hn (by omega))
        exact ⟨a, b, r, w, h⟩
  | restore _ hrestore ih =>
      obtain ⟨a, b, r, w, h⟩ := ih
      exact h.restore hn hrestore
  | sync _ ih =>
      obtain ⟨a, b, r, w, h⟩ := ih
      exact ⟨r, w, r, w, h.sync⟩

/-! ## Since the save -/

variable {cur₀ new₀ : FreeList n} {c : Bool} {pushed popped : List Nat} {s a b r w : Nat}

/-- The saved place is the counter `s`, and from it on the cells still hold what the list held
then and what has been pushed since. -/
structure Kept (new₀ : FreeList n) (c : Bool) (pushed popped : List Nat) (cur new : FreeList n)
    (s a b r w : Nat) : Prop where
  sound : Sound cur new a b r w
  le : s ≤ r
  size : w ≤ s + n
  all : slots n new.ring.buffer s w = new₀.contents ++ pushed
  popped : slots n new.ring.buffer s r = popped
  nodup : (slots n new.ring.buffer s w).Nodup
  /-- After the cycle of the save every cycle begins at the saved place or behind it. -/
  later : c = false → s ≤ a

theorem Kept.save (hn : 0 < n) (h : Sound cur₀ new₀ a b s w) :
    Kept new₀ true [] [] cur₀ new₀ s a b s w where
  sound := h
  le := Nat.le_refl s
  size := h.size
  all := by rw [List.append_nil, h.contents_eq hn]
  popped := slots_self _
  nodup := h.nodup
  later := fun hc => by cases hc

/-- **A new id finds room**: with it, the list and what has been popped since the save are all
different. -/
theorem Kept.push (hn : 0 < n) (h : Kept new₀ c pushed popped cur new s a b r w) (hx : x < n)
    (hlist : x ∉ new.contents) (hgone : x ∉ popped)
    (hroom : c = true → Fifo.producerIsFull cur.ring new.ring = false) :
    ∃ new', push cur new x = some (new', true) ∧
      Kept new₀ c (pushed ++ [x]) popped cur new' s a b r (w + 1) := by
  have hle := h.le
  have hrw := h.sound.le
  have hsplit := slots_append (n := n) new.ring.buffer hle hrw
  rw [h.sound.contents_eq hn] at hlist
  have hnot : x ∉ slots n new.ring.buffer s w := by
    rw [← hsplit, List.mem_append, h.popped, not_or]
    exact ⟨hgone, hlist⟩
  have hsize : w < s + n := by
    have := length_lt_of_missing h.nodup (h.sound.slots_small s w) hx hnot
    rw [slots_length] at this
    omega
  have hproducer : w < a + n := by
    cases hc : c with
    | false =>
        have := h.later hc
        omega
    | true =>
        have hfull := hroom hc
        rw [Bool.eq_false_iff, Ne, h.sound.isFull_iff hn] at hfull
        have := h.sound.old_size
        omega
  obtain ⟨new', hpush, hsound, hbuffer⟩ := h.sound.push_some hn hx hlist hproducer
  have hall : slots n new'.ring.buffer s (w + 1) = slots n new.ring.buffer s w ++ [x] := by
    rw [hbuffer, slots_succ_right _ (Nat.le_trans hle hrw), slots_update _ _ (Nat.le_refl w) hsize,
      Function.update_self]
  refine ⟨new', hpush,
    { sound := hsound
      le := hle
      size := hsize
      all := by rw [hall, h.all, List.append_assoc]
      popped := by rw [hbuffer, slots_update _ _ hrw hsize, h.popped]
      nodup := ?_
      later := h.later }⟩
  rw [hall, (List.perm_append_singleton x _).nodup_iff]
  exact List.nodup_cons.mpr ⟨hnot, h.nodup⟩

theorem Kept.pop (hn : 0 < n) (h : Kept new₀ c pushed popped cur new s a b r w) :
    ∃ o new' r', pop cur new = some (o, new') ∧
      Kept new₀ c pushed (popped ++ o.toList) cur new' s a b r' w := by
  by_cases hlt : r < b
  · obtain ⟨new', hpop, hsound, hbuffer⟩ := h.sound.pop_some hn hlt
    refine ⟨_, new', r + 1, hpop,
      { sound := hsound
        le := Nat.le_succ_of_le h.le
        size := h.size
        all := by rw [hbuffer, h.all]
        popped := ?_
        nodup := hbuffer ▸ h.nodup
        later := h.later }⟩
    rw [hbuffer, slots_succ_right _ h.le, h.popped]
    rfl
  · have hold := h.sound.le_old
    refine ⟨none, new, r, h.sound.pop_none hn (by omega), ?_⟩
    rw [Option.toList_none, List.append_nil]
    exact h

theorem Kept.sync (h : Kept new₀ c pushed popped cur new s a b r w) :
    Kept new₀ false pushed popped new new s r w r w where
  sound := h.sound.sync
  le := h.le
  size := h.size
  all := h.all
  popped := h.popped
  nodup := h.nodup
  later := fun _ => h.le

theorem Since.kept (hn : 0 < n) (h₀ : Sound cur₀ new₀ a b s w)
    (h : Since cur₀ new₀ c pushed popped cur new) :
    ∃ a b r w, Kept new₀ c pushed popped cur new s a b r w := by
  induction h with
  | save => exact ⟨a, b, s, w, Kept.save hn h₀⟩
  | push _ hx hlist hgone hroom hpush ih =>
      obtain ⟨a, b, r, w, h⟩ := ih
      obtain ⟨new₁, hpush', h'⟩ := h.push hn hx hlist hgone hroom
      cases hpush.symm.trans hpush'
      exact ⟨a, b, r, w + 1, h'⟩
  | pop _ hpop ih =>
      obtain ⟨a, b, r, w, h⟩ := ih
      obtain ⟨o, new₁, r', hpop', h'⟩ := h.pop hn
      cases hpop.symm.trans hpop'
      exact ⟨a, b, r', w, h'⟩
  | sync _ ih =>
      obtain ⟨a, b, r, w, h⟩ := ih
      exact ⟨r, w, r, w, h.sync⟩

/-- **A restore undoes the pops and nothing else.** After any pops and pushes since the save, a
pop succeeds or finds nothing, a new id is accepted, and before the first pop of a cycle the
restore of the saved pointer leaves what the list held at the save, in its order, and then
every id pushed since; the 32-bit count is right and the set is that of these ids. -/
theorem restore_undoesPops (hn : 0 < n) (hsize : n ≤ 2 ^ 31) (h₀ : Reachable n cur₀ new₀)
    (h : Since cur₀ new₀ c pushed popped cur new) :
    (∃ o new', pop cur new = some (o, new')) ∧
    (∀ x, x < n → x ∉ new.contents → x ∉ popped →
      (c = true → Fifo.producerIsFull cur.ring new.ring = false) →
      ∃ new', push cur new x = some (new', true)) ∧
    (cur.ring.rptr = new.ring.rptr → ∃ new', restore cur new (save new₀) = some new' ∧
      new'.contents = new₀.contents ++ pushed ∧
      Fifo.newUsedSpace new'.ring = (new₀.contents ++ pushed).length ∧
      new'.freeListSet.Perm new'.contents) := by
  obtain ⟨a₀, b₀, s, w₀, hsound₀⟩ := reachable_sound hn h₀
  obtain ⟨a, b, r, w, hkept⟩ := h.kept hn hsound₀
  refine ⟨?_, fun x hx hlist hgone hroom => ?_, fun hrptr => ?_⟩
  · obtain ⟨o, new', -, hpop, -⟩ := hkept.pop hn
    exact ⟨o, new', hpop⟩
  · obtain ⟨new', hpush, -⟩ := hkept.push hn hx hlist hgone hroom
    exact ⟨new', hpush⟩
  · have har := (hkept.sound.rptr_eq_iff hn).mp hrptr
    obtain ⟨new', hrestore, hsound, hbuffer⟩ :=
      hkept.sound.restore_some hn har hkept.le hkept.size hkept.nodup
    have hcontents : new'.contents = new₀.contents ++ pushed := by
      rw [hsound.contents_eq hn, hbuffer, hkept.all]
    refine ⟨new', by rw [save, hsound₀.rptr, hrestore], hcontents, ?_, ?_⟩
    · have hcount := Fifo.counts_fold hn hsize (l := new'.contents) (a := s) (b := w)
        (by rw [hsound.contents_eq hn, slots_length]; have := hsound.le; omega)
        (by rw [hsound.contents_eq hn, slots_length]; have := hsound.size; omega)
      rw [← hcontents, ← hcount.used, Fifo.newUsedSpace, Fifo.newIsFull, hsound.rptr, hsound.wptr]
    · rw [hsound.contents_eq hn]
      exact hsound.set

/-- Three ids, the read pointer saved in the second turn of the ring: ids 0 and 1 are popped, 1
and 2 pushed, and after the restore the list goes on from 0. -/
theorem restore_undoesPops_wrap :
    ∃ cur₀ new₀ cur new : FreeList 3, Reachable 3 cur₀ new₀ ∧
      Since cur₀ new₀ false [1, 2] [0, 1] cur new ∧ new.contents = [2] ∧
      ∃ new', restore cur new (save new₀) = some new' ∧ new'.contents = [0, 1, 2] := by
  have h₀ := Reachable.reset (n := 3)
  have h₀ := h₀.pop rfl
  have h₀ := h₀.pop rfl
  have h₀ := h₀.sync
  have h₀ := h₀.push (x := 0) rfl
  have h₀ := h₀.sync
  have h₀ := h₀.pop rfl
  have start {c d : FreeList 3} (_ : Reachable 3 c d) : Since c d true [] [] c d := Since.save
  have h := (start h₀).pop (rfl : pop _ _ = some (some 0, _))
  have h := h.sync
  have h := h.push (x := 1) (by decide) (by decide +kernel) (by decide) (by decide) rfl
  have h := h.push (x := 2) (by decide) (by decide +kernel) (by decide) (by decide) rfl
  have h := h.sync
  have h := h.pop (rfl : pop _ _ = some (some 1, _))
  have h := h.sync
  obtain ⟨new', hrestore, hcontents, -⟩ :=
    (restore_undoesPops (by decide) (by decide) h₀ h).2.2 rfl
  exact ⟨_, _, _, _, h₀, h, by decide +kernel, new', hrestore, hcontents.trans (by decide +kernel)⟩

/-- **What the restore does not cover.** After a pop of its own cycle it aborts, since it
measures the list from the old read pointer; in the cycle of the save, an id popped before it
can be lost, since the producer does not see the room; and with more than 2³¹ ids the count is
off. -/
theorem restore_limits :
    (∃ cur new : FreeList 2, Since (reset 2) (reset 2) true [] [0] cur new ∧
      restore cur new (save (reset 2)) = none) ∧
    (∃ cur₀ new₀ : FreeList 1, Reachable 1 cur₀ new₀ ∧ 0 ∉ new₀.contents ∧
      push cur₀ new₀ 0 = some (new₀, false)) ∧
    (∃ ring : Fifo (2 ^ 32 - 1) Nat, ring.contents = [0, 1] ∧ ring.newUsedSpace = 1) := by
  refine ⟨?_, ?_, ?_⟩
  · have h : Since (reset 2) (reset 2) true [] [] _ _ := Since.save
    have h := h.pop (rfl : pop _ _ = some (some 0, _))
    exact ⟨_, _, h, rfl⟩
  · have h := (Reachable.reset (n := 1)).pop rfl
    exact ⟨_, _, h, by decide +kernel, rfl⟩
  · exact ⟨⟨id, ⟨0, false⟩, ⟨2, false⟩⟩, by decide +kernel, by decide +kernel⟩

end FreeList

end DreamCore
