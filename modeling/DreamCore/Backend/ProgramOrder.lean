import DreamCore.Pipeline.Commit
import DreamCore.Pipeline.Bru
import DreamCore.Pipeline.Lsu
import Mathlib.Order.Defs.Unbundled

/-!
# Program order in the reorder buffer

An instruction in flight is known by the slot of its ROB entry and the stage bit
the write pointer had there. `age_compare.h` compares two such pairs without
knowing how often the ring has gone round, so it is right only as long as the
live entries span at most one lap.

This module runs a ROB of any size through any history. Every instruction that
gets an entry also gets a serial number, its place in the order of all pushes; it
is what the entry holds. The copies of an instruction that wait in the queues and
units are `pending`: commit retires none of them, a recovery starts from one of
them, and every copy passes the filter of the recovery. That a restored write
pointer always lies between the two pointers is then a result, not an assumption.
-/

namespace DreamCore

open Ring

/-! ## The comparison -/

namespace AgeCompare

/-- `operator <`: younger. -/
def lt (this other : Ptr) : Bool := this.younger other

/-- `operator >`: older. -/
def gt (this other : Ptr) : Bool :=
  if this.stage == other.stage then decide (this.id < other.id) else decide (this.id > other.id)

def eq (this other : Ptr) : Bool := this.id == other.id && this.stage == other.stage

def ne (this other : Ptr) : Bool := this.id != other.id || this.stage != other.stage

def le (this other : Ptr) : Bool := lt this other || eq this other

def ge (this other : Ptr) : Bool := gt this other || eq this other

theorem gt_eq_lt (p q : Ptr) : gt p q = lt q p := by
  simp only [gt, lt, Ptr.younger, gt_iff_lt, Bool.beq_comm (a := p.stage)]

theorem eq_iff (p q : Ptr) : eq p q = true ↔ p = q := by
  cases p
  cases q
  simp [eq]

theorem ne_iff (p q : Ptr) : ne p q = true ↔ p ≠ q := by
  cases p
  cases q
  simp only [ne, Bool.or_eq_true, bne_iff_ne, Ptr.mk.injEq, Ne, not_and_or]

end AgeCompare

/-! ## The live entries -/

/-- An instruction with a ROB entry: its pair, and its place in the order of pushes. -/
structure RobEntry where
  ptr : Ptr
  serial : Nat
deriving DecidableEq, Repr

variable {n : Nat}

/-- The valid entries, oldest first, as `customer_foreach` walks over them. -/
def Fifo.entries (f : Fifo n Nat) : List RobEntry :=
  (List.range f.newGetUsedSpace).map fun i =>
    ⟨(Ptr.next n)^[i] f.rptr, f.buffer ((Ptr.next n)^[i] f.rptr).id⟩

theorem iterate_next_fold (hn : 0 < n) (a i : Nat) :
    (Ptr.next n)^[i] (Ptr.fold n a) = Ptr.fold n (a + i) := by
  induction i with
  | zero => rfl
  | succ i ih => rw [Function.iterate_succ_apply', ih, Ptr.next_fold hn, Nat.add_assoc]

variable {f : Fifo n Nat} {a b : Nat}

theorem Fifo.Window.entries_eq (hn : 0 < n) (h : Fifo.Window f a b) :
    f.entries = (List.range' a (b - a)).map fun k => ⟨Ptr.fold n k, f.buffer (k % n)⟩ := by
  rw [Fifo.entries, Fifo.newGetUsedSpace, h.rptr, h.wptr, Ptr.gap_fold hn h.le h.size,
    List.range'_eq_map_range, List.map_map]
  refine List.map_congr_left fun i _ => ?_
  simp only [iterate_next_fold hn, Ptr.fold_id, Function.comp]

theorem Fifo.Window.mem_entries (hn : 0 < n) (h : Fifo.Window f a b) {e : RobEntry} :
    e ∈ f.entries ↔ ∃ k, a ≤ k ∧ k < b ∧ e = ⟨Ptr.fold n k, f.buffer (k % n)⟩ := by
  have hle := h.le
  rw [h.entries_eq hn, List.mem_map]
  constructor
  · rintro ⟨k, hk, rfl⟩
    rw [List.mem_range'_1] at hk
    exact ⟨k, hk.1, by omega, rfl⟩
  · rintro ⟨k, hak, hkb, rfl⟩
    exact ⟨k, List.mem_range'_1.mpr ⟨hak, by omega⟩, rfl⟩

/-! ## Recoveries -/

/-- The units that take instructions back. -/
inductive RecoveryUnit
  | bru
  | sau
deriving DecidableEq, Repr

/-- A recovery: the mispredicted branch in the BRU, or the load in conflict with a store that
the SAU has found. -/
structure Recovery where
  unit : RecoveryUnit
  entry : RobEntry
deriving DecidableEq, Repr

/-- The feedback the unit sends to all stages. -/
def Recovery.feedback (r : Recovery) : FlushFeedback := { flush := true, robId := r.entry.ptr }

/-- The filter of the stages: BRU flushes keep the branch, SAU flushes do not keep the load. -/
def Recovery.squashes (r : Recovery) (robId : Ptr) : Bool :=
  match r.unit with
  | .bru => r.feedback.squashes robId
  | .sau => r.feedback.squashesEqual robId

/-- Where the unit puts the write pointer of the ROB. -/
def Recovery.wptr {α : Type} (cur new : Fifo n α) (unit : RecoveryUnit) (robId : Ptr) : Option Ptr :=
  match unit with
  | .bru => Fifo.customerGetNextIdStage cur new robId
  | .sau => some robId

/-! ## Histories -/

/-- A ROB between two cycles, the copies of its instructions in the pipeline, and the number of
pushes so far. -/
structure RobHistory (n : Nat) where
  rob : Fifo n Nat := { buffer := fun _ => 0 }
  pending : List RobEntry := []
  pushed : Nat := 0

/-- One cycle, in the order of the stages: commit pops and may flush, a unit may recover, rename
pushes. `finished` are the copies that leave the pipeline. -/
structure RobCycle where
  pops : Nat := 0
  flush : Bool := false
  recovery : Option Recovery := none
  finished : RobEntry → Bool := fun _ => false
  pushes : Nat := 0

namespace RobHistory

/-- The pops of commit. `none`: it would retire an instruction that has not finished. -/
def retire (cur : Fifo n Nat) (pending : List RobEntry) : Nat → Fifo n Nat → Option (Fifo n Nat)
  | 0, new => some new
  | pops + 1, new =>
      match Fifo.pop cur new with
      | none => some new
      | some (serial, new) =>
          if pending.any (·.serial == serial) then none else retire cur pending pops new

/-- The recovery. `none`: it would start from an instruction that is not in the pipeline, or the
unit's own check of the id fails. -/
def recover (cur : Fifo n Nat) (pending : List RobEntry) (new : Fifo n Nat) :
    Option Recovery → Option (Fifo n Nat)
  | none => some new
  | some r =>
      if r.entry ∈ pending then (Recovery.wptr cur new r.unit r.entry.ptr).map new.updateWptr
      else none

/-- The pushes of rename: the ROB, the new entries, the number of pushes. -/
def allocate (cur : Fifo n Nat) : Nat → Fifo n Nat → Nat → Fifo n Nat × List RobEntry × Nat
  | 0, new, pushed => (new, [], pushed)
  | pushes + 1, new, pushed =>
      match Fifo.push cur new pushed with
      | none => (new, [], pushed)
      | some next =>
          let (rob, fresh, pushed') := allocate cur pushes next (pushed + 1)
          (rob, ⟨new.wptr, pushed⟩ :: fresh, pushed')

/-- What stays in the pipeline. -/
def keeps (c : RobCycle) (e : RobEntry) : Bool :=
  !c.finished e && !c.recovery.any (·.squashes e.ptr)

def cycle (s : RobHistory n) (c : RobCycle) : Option (RobHistory n) := do
  let retired ← retire s.rob s.pending c.pops s.rob
  if c.flush then return { s with rob := retired.flush, pending := [] }
  let restored ← recover s.rob s.pending retired c.recovery
  let (rob, fresh, pushed) := allocate s.rob c.pushes restored s.pushed
  return ⟨rob, s.pending.filter (keeps c) ++ fresh, pushed⟩

def run (s : RobHistory n) : List RobCycle → Option (RobHistory n)
  | [] => some s
  | c :: cycles => (s.cycle c).bind (run · cycles)

/-! ## The invariant -/

/-- The live entries are the counters from `a` to `b`, their serials grow, and the pipeline holds
live instructions only. -/
structure Live (s : RobHistory n) (a b : Nat) : Prop where
  window : Fifo.Window s.rob a b
  sorted : (slots n s.rob.buffer a b).Pairwise (· < ·)
  below : ∀ t ∈ slots n s.rob.buffer a b, t < s.pushed
  pending : ∀ e ∈ s.pending, e ∈ s.rob.entries

theorem live_init : Live ({} : RobHistory n) 0 0 where
  window := Fifo.window_flush { buffer := fun _ => 0 }
  sorted := by simp
  below := by simp
  pending := by simp

variable {s s' : RobHistory n} {c : RobCycle}

/-- Serials order the counters. -/
theorem serial_lt_iff {buf : Nat → Nat} (h : (slots n buf a b).Pairwise (· < ·)) {j k : Nat}
    (haj : a ≤ j) (hjb : j < b) (hak : a ≤ k) (hkb : k < b) :
    buf (j % n) < buf (k % n) ↔ j < k := by
  have hmono (i l : Nat) (hai : a ≤ i) (hil : i < l) (hlb : l < b) :
      buf (i % n) < buf (l % n) := by
    have hi := slots_getElem? (n := n) (a := a) (b := b) buf (k := i - a) (by omega)
    have hl := slots_getElem? (n := n) (a := a) (b := b) buf (k := l - a) (by omega)
    rw [Nat.add_sub_cancel' hai] at hi
    rw [Nat.add_sub_cancel' (by omega)] at hl
    obtain ⟨hilen, hi⟩ := List.getElem?_eq_some_iff.mp hi
    obtain ⟨hllen, hl⟩ := List.getElem?_eq_some_iff.mp hl
    have := List.pairwise_iff_getElem.mp h (i - a) (l - a) hilen hllen (by omega)
    rwa [hi, hl] at this
  constructor
  · intro hlt
    rcases Nat.lt_trichotomy j k with hjk | rfl | hkj
    · exact hjk
    · exact absurd hlt (Nat.lt_irrefl _)
    · have := hmono k j hak hkj hjb
      omega
  · intro hjk
    exact hmono j k haj hjk hkb

/-- The pipeline holds a live instruction under its counter, one that commit has not passed. -/
theorem Live.pending_counter (hn : 0 < n) (h : Live s a b) {a' : Nat}
    (hpassed : ∀ k, a ≤ k → k < a' → ∀ e ∈ s.pending, e.serial ≠ s.rob.buffer (k % n))
    {e : RobEntry} (he : e ∈ s.pending) :
    ∃ k, a ≤ k ∧ a' ≤ k ∧ k < b ∧ e = ⟨Ptr.fold n k, s.rob.buffer (k % n)⟩ := by
  obtain ⟨k, hak, hkb, heq⟩ := (h.window.mem_entries hn).mp (h.pending e he)
  refine ⟨k, hak, ?_, hkb, heq⟩
  by_contra hlt
  exact hpassed k hak (by omega) e he (by rw [heq])

/-- **Commit moves the read pointer, and not past an instruction in the pipeline.** -/
theorem retire_window (hn : 0 < n) (h : Live s a b) {pops : Nat} {new retired : Fifo n Nat}
    {a' : Nat} (hnew : Fifo.Window new a' b) (hbuf : new.buffer = s.rob.buffer) (ha : a ≤ a')
    (hpassed : ∀ k, a ≤ k → k < a' → ∀ e ∈ s.pending, e.serial ≠ s.rob.buffer (k % n))
    (hretire : retire s.rob s.pending pops new = some retired) :
    ∃ a'', a' ≤ a'' ∧ Fifo.Window retired a'' b ∧ retired.buffer = s.rob.buffer ∧
      ∀ k, a ≤ k → k < a'' → ∀ e ∈ s.pending, e.serial ≠ s.rob.buffer (k % n) := by
  induction pops generalizing new a' with
  | zero =>
      cases hretire
      exact ⟨a', Nat.le_refl _, hnew, hbuf, hpassed⟩
  | succ pops ih =>
      unfold retire at hretire
      cases hpop : Fifo.pop s.rob new with
      | none =>
          rw [hpop] at hretire
          cases hretire
          exact ⟨a', Nat.le_refl _, hnew, hbuf, hpassed⟩
      | some popped =>
          obtain ⟨serial, next⟩ := popped
          rw [hpop] at hretire
          simp only at hretire
          by_cases hbusy : s.pending.any (·.serial == serial) = true
          · rw [if_pos hbusy] at hretire
            cases hretire
          · rw [if_neg hbusy] at hretire
            have hle := hnew.le
            obtain ⟨-, hnext, hnbuf, rfl⟩ :=
              hnew.pop hn h.window.wptr hle (Nat.le_refl _) hpop
            have hfront : ∀ e ∈ s.pending, e.serial ≠ s.rob.buffer (a' % n) := by
              intro e he heq
              exact hbusy (List.any_eq_true.mpr ⟨e, he, by simpa using heq⟩)
            obtain ⟨a'', ha'', hrest⟩ := ih hnext (hnbuf.trans hbuf) (by omega)
              (fun k hak hka => by
                rcases Nat.lt_or_ge k a' with hlt | hge
                · exact hpassed k hak hlt
                · obtain rfl : k = a' := by omega
                  exact hfront) hretire
            exact ⟨a'', by omega, hrest⟩

/-- **A restored write pointer lies between the two pointers.** It is the counter after the
branch, or the one of the load. -/
theorem recover_window (hn : 0 < n) (h : Live s a b) {retired restored : Fifo n Nat} {a' : Nat}
    (hret : Fifo.Window retired a' b)
    (hpassed : ∀ k, a ≤ k → k < a' → ∀ e ∈ s.pending, e.serial ≠ s.rob.buffer (k % n))
    {r : Recovery} (hrecover : recover s.rob s.pending retired (some r) = some restored) :
    ∃ k, a' ≤ k ∧ k < b ∧ r.entry ∈ s.pending ∧ r.entry = ⟨Ptr.fold n k, s.rob.buffer (k % n)⟩ ∧
      Fifo.Window restored a' (match r.unit with | .bru => k + 1 | .sau => k) ∧
      restored.buffer = retired.buffer := by
  unfold recover at hrecover
  by_cases hmem : r.entry ∈ s.pending
  · simp only [if_pos hmem] at hrecover
    obtain ⟨p, hp, rfl⟩ := Option.map_eq_some_iff.mp hrecover
    obtain ⟨k, -, hka, hkb, heq⟩ := h.pending_counter hn hpassed hmem
    have hptr : r.entry.ptr = Ptr.fold n k := by rw [heq]
    have hsize := hret.size
    refine ⟨k, hka, hkb, hmem, heq, ?_, rfl⟩
    cases hu : r.unit with
    | bru =>
        rw [hu, Recovery.wptr, Fifo.customerGetNextIdStage] at hp
        split at hp
        · refine ⟨hret.rptr, ?_, by simp only; omega, by simp only; omega⟩
          rw [Fifo.updateWptr_wptr, ← Option.some.inj hp, hptr, Fifo.staticGetNextIdStage_fold hn]
        · cases hp
    | sau =>
        rw [hu, Recovery.wptr] at hp
        refine ⟨hret.rptr, ?_, hka, by simp only; omega⟩
        rw [Fifo.updateWptr_wptr, ← Option.some.inj hp, hptr]
  · simp only [if_neg hmem] at hrecover
    cases hrecover

/-- What the pushes of a cycle leave behind, from a window `a' b'` to a window `a' b''`. -/
structure Allocated (new : Fifo n Nat) (a' b' b'' pushed : Nat)
    (out : Fifo n Nat × List RobEntry × Nat) : Prop where
  window : Fifo.Window out.1 a' b''
  le : b' ≤ b''
  sorted : (slots n out.1.buffer a' b'').Pairwise (· < ·)
  below : ∀ t ∈ slots n out.1.buffer a' b'', t < out.2.2
  kept : ∀ k, a' ≤ k → k < b' → out.1.buffer (k % n) = new.buffer (k % n)
  pushed_le : pushed ≤ out.2.2
  fresh : ∀ e, e ∈ out.2.1 ↔
    ∃ k, b' ≤ k ∧ k < b'' ∧ e = ⟨Ptr.fold n k, out.1.buffer (k % n)⟩
  serials : ∀ k, b' ≤ k → k < b'' → pushed ≤ out.1.buffer (k % n)

theorem allocated_none {new : Fifo n Nat} {a' b' pushed : Nat} (hnew : Fifo.Window new a' b')
    (hsorted : (slots n new.buffer a' b').Pairwise (· < ·))
    (hbelow : ∀ t ∈ slots n new.buffer a' b', t < pushed) :
    Allocated new a' b' b' pushed (new, [], pushed) where
  window := hnew
  le := Nat.le_refl _
  sorted := hsorted
  below := hbelow
  kept := fun _ _ _ => rfl
  pushed_le := Nat.le_refl _
  fresh := by
    intro e
    constructor
    · intro he
      cases he
    · rintro ⟨k, hk, hk', -⟩
      omega
  serials := fun k hk hk' => by omega

/-- **The pushes of a cycle** widen the window at its young end with growing serials, and no
further than one lap from where the cycle began. -/
theorem allocate_allocated (hn : 0 < n) {cur : Fifo n Nat} (hcur : cur.rptr = Ptr.fold n a)
    (pushes : Nat) {new : Fifo n Nat} (pushed : Nat) {a' b' : Nat} (hnew : Fifo.Window new a' b')
    (ha : a ≤ a') (hb : b' ≤ a + n) (hsorted : (slots n new.buffer a' b').Pairwise (· < ·))
    (hbelow : ∀ t ∈ slots n new.buffer a' b', t < pushed) :
    ∃ b'', b'' ≤ a + n ∧ Allocated new a' b' b'' pushed (allocate cur pushes new pushed) := by
  induction pushes generalizing new pushed b' with
  | zero => exact ⟨b', hb, allocated_none hnew hsorted hbelow⟩
  | succ pushes ih =>
      unfold allocate
      cases hpush : Fifo.push cur new pushed with
      | none => exact ⟨b', hb, allocated_none hnew hsorted hbelow⟩
      | some next =>
          obtain ⟨hroom, hnext, hbuf⟩ := hnew.push hn hcur ha hb hpush
          have hle := hnew.le
          have hslots : slots n next.buffer a' (b' + 1) = slots n new.buffer a' b' ++ [pushed] := by
            rw [slots_succ_right _ hle, hbuf, slots_update _ _ (Nat.le_refl _) (by omega),
              Function.update_self]
          have hkept (k : Nat) (hak : a' ≤ k) (hkb : k < b') :
              next.buffer (k % n) = new.buffer (k % n) := by
            rw [hbuf]
            exact Function.update_of_ne (mod_ne_of_window hkb (by omega)) ..
          obtain ⟨b'', hbound, hout⟩ := ih (pushed + 1) hnext (by omega)
            (by
              rw [hslots, List.pairwise_append]
              refine ⟨hsorted, List.pairwise_singleton .., fun t ht u hu => ?_⟩
              rw [List.mem_singleton.mp hu]
              exact hbelow t ht)
            (by
              intro t ht
              rw [hslots, List.mem_append, List.mem_singleton] at ht
              rcases ht with ht | rfl
              · exact Nat.lt_succ_of_lt (hbelow t ht)
              · exact Nat.lt_succ_self _)
          have hnewest : (allocate cur pushes next (pushed + 1)).1.buffer (b' % n) = pushed := by
            rw [hout.kept b' hle (Nat.lt_succ_self _), hbuf, Function.update_self]
          have hstep := hout.le
          refine ⟨b'', hbound, hout.window, by omega, hout.sorted, hout.below, ?_, ?_, ?_, ?_⟩
          · intro k hak hkb
            exact (hout.kept k hak (by omega)).trans (hkept k hak hkb)
          · exact Nat.le_of_succ_le hout.pushed_le
          · intro e
            simp only [List.mem_cons, hout.fresh]
            constructor
            · rintro (rfl | ⟨k, hk, hk', rfl⟩)
              · exact ⟨b', Nat.le_refl _, by omega, by rw [hnewest, hnew.wptr]⟩
              · exact ⟨k, by omega, hk', rfl⟩
            · rintro ⟨k, hk, hk', rfl⟩
              rcases Nat.eq_or_lt_of_le hk with rfl | hlt
              · exact .inl (by rw [hnewest, hnew.wptr])
              · exact .inr ⟨k, hlt, hk', rfl⟩
          · intro k hk hk'
            rcases Nat.eq_or_lt_of_le hk with rfl | hlt
            · exact Nat.le_of_eq hnewest.symm
            · exact Nat.le_of_succ_le (hout.serials k hlt hk')

/-! ## The comparison is program order -/

/-- **Younger means pushed later**, for any two live entries. -/
theorem Live.lt_iff (hn : 0 < n) (h : Live s a b) {x y : RobEntry} (hx : x ∈ s.rob.entries)
    (hy : y ∈ s.rob.entries) : AgeCompare.lt x.ptr y.ptr = true ↔ y.serial < x.serial := by
  obtain ⟨j, haj, hjb, rfl⟩ := (h.window.mem_entries hn).mp hx
  obtain ⟨k, hak, hkb, rfl⟩ := (h.window.mem_entries hn).mp hy
  have hsize := h.window.size
  rw [AgeCompare.lt, Ptr.younger_fold hn (by omega) (by omega),
    serial_lt_iff h.sorted hak hkb haj hjb]

/-- Two live entries with one serial are one entry. -/
theorem Live.eq_of_serial (hn : 0 < n) (h : Live s a b) {x y : RobEntry}
    (hx : x ∈ s.rob.entries) (hy : y ∈ s.rob.entries) (hserial : x.serial = y.serial) : x = y := by
  obtain ⟨j, haj, hjb, rfl⟩ := (h.window.mem_entries hn).mp hx
  obtain ⟨k, hak, hkb, rfl⟩ := (h.window.mem_entries hn).mp hy
  simp only at hserial
  rcases Nat.lt_trichotomy j k with hjk | rfl | hkj
  · have := (serial_lt_iff h.sorted haj hjb hak hkb).mpr hjk
    omega
  · rfl
  · have := (serial_lt_iff h.sorted hak hkb haj hjb).mpr hkj
    omega

/-- Two live entries with one pair are one entry. -/
theorem Live.eq_of_ptr (hn : 0 < n) (h : Live s a b) {x y : RobEntry}
    (hx : x ∈ s.rob.entries) (hy : y ∈ s.rob.entries) (hptr : x.ptr = y.ptr) : x = y := by
  rcases Nat.lt_trichotomy x.serial y.serial with hlt | heq | hlt
  · have := (h.lt_iff hn hy hx).mpr hlt
    rw [AgeCompare.lt, hptr, Ptr.younger_irrefl] at this
    cases this
  · exact h.eq_of_serial hn hx hy heq
  · have := (h.lt_iff hn hx hy).mpr hlt
    rw [AgeCompare.lt, hptr, Ptr.younger_irrefl] at this
    cases this

/-- What each unit squashes among the live entries. -/
theorem Live.squashes_iff (hn : 0 < n) (h : Live s a b) {r : Recovery} {y : RobEntry}
    (hr : r.entry ∈ s.rob.entries) (hy : y ∈ s.rob.entries) :
    r.squashes y.ptr = true ↔
      match r.unit with
      | .bru => r.entry.serial < y.serial
      | .sau => r.entry.serial ≤ y.serial := by
  have hyounger := h.lt_iff hn hy hr
  rw [AgeCompare.lt] at hyounger
  unfold Recovery.squashes
  cases r.unit with
  | bru => simpa [FlushFeedback.squashes, Recovery.feedback] using hyounger
  | sau =>
      simp only [FlushFeedback.squashesEqual, Recovery.feedback, Bool.true_and, Bool.or_eq_true,
        hyounger, beq_iff_eq, Nat.le_iff_lt_or_eq]
      refine or_congr_right ⟨fun hptr => ?_, fun hserial => ?_⟩
      · rw [h.eq_of_ptr hn hy hr hptr]
      · rw [h.eq_of_serial hn hr hy hserial]

/-! ## One cycle -/

/-- What commit and the recovery of a cycle leave of the window `a b`. -/
structure Cut (s : RobHistory n) (c : RobCycle) (a b : Nat) (restored : Fifo n Nat)
    (a' b' : Nat) : Prop where
  left : a ≤ a'
  right : b' ≤ b
  window : Fifo.Window restored a' b'
  buffer : restored.buffer = s.rob.buffer
  /-- Nothing that is still in the pipeline has been retired. -/
  passed : ∀ k, a ≤ k → k < a' → ∀ e ∈ s.pending, e.serial ≠ s.rob.buffer (k % n)
  quiet : c.recovery = none → b' = b
  recovery : ∀ r, c.recovery = some r → r.entry ∈ s.pending ∧
    ∃ k, a' ≤ k ∧ k < b ∧ r.entry = ⟨Ptr.fold n k, s.rob.buffer (k % n)⟩ ∧
      b' = match r.unit with | .bru => k + 1 | .sau => k

/-- A cycle without a flush: commit and the recovery cut the window, rename pushes. -/
theorem Live.cycle_cut (hn : 0 < n) (h : Live s a b) (hflush : c.flush = false)
    (hcycle : s.cycle c = some s') :
    ∃ restored a' b', Cut s c a b restored a' b' ∧
      s' = ⟨(allocate s.rob c.pushes restored s.pushed).1,
        s.pending.filter (keeps c) ++ (allocate s.rob c.pushes restored s.pushed).2.1,
        (allocate s.rob c.pushes restored s.pushed).2.2⟩ := by
  simp only [cycle, hflush, Bool.false_eq_true, if_false, Option.bind_eq_bind,
    Option.bind_eq_some_iff] at hcycle
  obtain ⟨retired, hretire, restored, hrecover, hs⟩ := hcycle
  obtain ⟨a', ha, hret, hbuf, hpassed⟩ := retire_window hn h h.window rfl (Nat.le_refl a)
    (fun k hk hk' => by omega) hretire
  have hs' := (Option.some.inj hs).symm
  cases hrec : c.recovery with
  | none =>
      rw [hrec] at hrecover
      cases hrecover
      refine ⟨retired, a', b, ⟨ha, Nat.le_refl _, hret, hbuf, hpassed, fun _ => rfl, ?_⟩, hs'⟩
      intro r hr
      rw [hrec] at hr
      cases hr
  | some r =>
      rw [hrec] at hrecover
      obtain ⟨k, hak, hkb, hmem, hentry, hwindow, hrbuf⟩ :=
        recover_window hn h hret hpassed hrecover
      refine ⟨restored, a', _, ⟨ha, ?_, hwindow, hrbuf.trans hbuf, hpassed, ?_, ?_⟩, hs'⟩
      · cases r.unit <;> simp only <;> omega
      · intro hnone
        rw [hrec] at hnone
        cases hnone
      · intro r' hr'
        rw [hrec] at hr'
        cases hr'
        exact ⟨hmem, k, hak, hkb, hentry, rfl⟩

section Cut

variable {restored : Fifo n Nat} {a' b' : Nat}

theorem Cut.mem_slots (h : Cut s c a b restored a' b') {t : Nat}
    (ht : t ∈ slots n restored.buffer a' b') : t ∈ slots n s.rob.buffer a b := by
  obtain ⟨k, hk, hk', rfl⟩ := Ring.mem_slots.mp ht
  have hleft := h.left
  have hright := h.right
  exact Ring.mem_slots.mpr ⟨k, by omega, by omega, by rw [h.buffer]⟩

theorem Cut.sorted (h : Cut s c a b restored a' b') (hlive : Live s a b) :
    (slots n restored.buffer a' b').Pairwise (· < ·) := by
  have hall := hlive.sorted
  have hle := h.window.le
  have hright := h.right
  rw [← slots_append _ h.left (by omega : a' ≤ b), ← slots_append (n := n) _ hle hright] at hall
  rw [h.buffer]
  exact (List.pairwise_append.mp (List.pairwise_append.mp hall).2.1).1

/-- **The cut spares a copy in the pipeline exactly when it passes the filter.** -/
theorem Cut.pending (hn : 0 < n) (h : Cut s c a b restored a' b') (hlive : Live s a b)
    {e : RobEntry} (he : e ∈ s.pending) :
    ∃ k, a' ≤ k ∧ k < b ∧ e = ⟨Ptr.fold n k, s.rob.buffer (k % n)⟩ ∧
      (k < b' ↔ ∀ r, c.recovery = some r → r.squashes e.ptr = false) := by
  obtain ⟨k, hak, hka, hkb, heq⟩ := hlive.pending_counter hn h.passed he
  refine ⟨k, hka, hkb, heq, ?_⟩
  cases hrec : c.recovery with
  | none =>
      rw [h.quiet hrec]
      exact iff_of_true hkb fun r hr => by cases hr
  | some r =>
      obtain ⟨hmem, j, haj, hjb, hentry, hcut⟩ := h.recovery r hrec
      have hleft := h.left
      have hsquash := hlive.squashes_iff hn (hlive.pending _ hmem) (hlive.pending e he)
      have hserials := serial_lt_iff hlive.sorted (j := j) (k := k) (by omega) hjb hak hkb
      have hserials' := serial_lt_iff hlive.sorted (j := k) (k := j) hak hkb (by omega) hjb
      have hr : r.entry.serial = s.rob.buffer (j % n) := by rw [hentry]
      have hes : e.serial = s.rob.buffer (k % n) := by rw [heq]
      simp only [Option.some.injEq, forall_eq', Bool.eq_false_iff, ne_eq, hsquash, hcut]
      cases r.unit with
      | bru =>
          simp only
          omega
      | sau =>
          simp only
          omega

end Cut

/-- **One cycle keeps the invariant.** -/
theorem Live.cycle (hn : 0 < n) (h : Live s a b) (hcycle : s.cycle c = some s') :
    ∃ a' b', Live s' a' b' := by
  cases hflush : c.flush with
  | true =>
      simp only [RobHistory.cycle, hflush, if_true, Option.bind_eq_bind,
        Option.bind_eq_some_iff] at hcycle
      obtain ⟨retired, -, hs⟩ := hcycle
      obtain rfl := (Option.some.inj hs).symm
      exact ⟨0, 0, Fifo.window_flush retired, by simp, by simp, by simp⟩
  | false =>
      obtain ⟨restored, a', b', hcut, rfl⟩ := h.cycle_cut hn hflush hcycle
      have hsize := h.window.size
      have hright := hcut.right
      obtain ⟨b'', -, hout⟩ := allocate_allocated hn h.window.rptr c.pushes s.pushed
        hcut.window hcut.left (by omega) (hcut.sorted h)
        (fun t ht => h.below t (hcut.mem_slots ht))
      refine ⟨a', b'', hout.window, hout.sorted, hout.below, fun e he => ?_⟩
      have hle := hout.le
      have hcutle := hcut.window.le
      rw [hout.window.mem_entries hn]
      rcases List.mem_append.mp he with he | he
      · obtain ⟨hpending, hkeeps⟩ := List.mem_filter.mp he
        obtain ⟨k, hak, -, heq, hiff⟩ := hcut.pending hn h hpending
        have hpass (r : Recovery) (hr : c.recovery = some r) : r.squashes e.ptr = false := by
          rw [keeps, hr] at hkeeps
          simpa using (Bool.and_eq_true_iff.mp hkeeps).2
        have hkb := hiff.mpr hpass
        exact ⟨k, hak, by omega, by rw [hout.kept k hak hkb, hcut.buffer, heq]⟩
      · obtain ⟨k, hk, hk', heq⟩ := (hout.fresh e).mp he
        exact ⟨k, by omega, hk', heq⟩

/-- **A copy in the pipeline keeps its entry exactly when it passes the filter**, whatever commit
and rename do in the same cycle. -/
theorem Live.kept_iff (hn : 0 < n) (h : Live s a b) (hflush : c.flush = false)
    (hcycle : s.cycle c = some s') {e : RobEntry} (he : e ∈ s.pending) :
    e ∈ s'.rob.entries ↔ ∀ r, c.recovery = some r → r.squashes e.ptr = false := by
  obtain ⟨restored, a', b', hcut, rfl⟩ := h.cycle_cut hn hflush hcycle
  have hsize := h.window.size
  have hright := hcut.right
  have hleft := hcut.left
  obtain ⟨b'', -, hout⟩ := allocate_allocated hn h.window.rptr c.pushes s.pushed
    hcut.window hleft (by omega) (hcut.sorted h)
    (fun t ht => h.below t (hcut.mem_slots ht))
  obtain ⟨k, hak, hkb, heq, hiff⟩ := hcut.pending hn h he
  have hserial : e.serial = s.rob.buffer (k % n) := by rw [heq]
  rw [← hiff, hout.window.mem_entries hn]
  constructor
  · rintro ⟨j, haj, hjb, heq'⟩
    have hserial' : e.serial = _ := congrArg RobEntry.serial heq'
    simp only at hserial'
    rcases Nat.lt_or_ge j b' with hlt | hge
    · -- An old slot: the serial tells the counter.
      rw [hout.kept j haj hlt, hcut.buffer] at hserial'
      have hjk := serial_lt_iff h.sorted (j := j) (k := k) (by omega) (by omega) (by omega) hkb
      have hkj := serial_lt_iff h.sorted (j := k) (k := j) (by omega) hkb (by omega) (by omega)
      omega
    · -- A slot written in this cycle holds a larger serial.
      have hfresh := hout.serials j hge hjb
      have hold := h.below e.serial (Ring.mem_slots.mpr ⟨k, by omega, hkb, hserial⟩)
      omega
  · intro hlt
    have hle := hout.le
    exact ⟨k, hak, by omega, by rw [hout.kept k hak hlt, hcut.buffer, heq]⟩

/-! ## Every history -/

theorem Live.run (hn : 0 < n) (h : Live s a b) {cycles : List RobCycle}
    (hrun : s.run cycles = some s') : ∃ a' b', Live s' a' b' := by
  induction cycles generalizing s a b with
  | nil =>
      cases hrun
      exact ⟨a, b, h⟩
  | cons c cycles ih =>
      obtain ⟨s₁, hcycle, hrest⟩ := Option.bind_eq_some_iff.mp hrun
      obtain ⟨a₁, b₁, h₁⟩ := h.cycle hn hcycle
      exact ih h₁ hrest

/-- The comparison of the live entries is a strict total order, and it is the order of pushes. -/
structure AgeIsOrder (live : List RobEntry) : Prop where
  strict : IsStrictTotalOrder {x // x ∈ live} fun x y => AgeCompare.lt x.1.ptr y.1.ptr = true
  lt : ∀ x ∈ live, ∀ y ∈ live, (AgeCompare.lt x.ptr y.ptr = true ↔ y.serial < x.serial)
  gt : ∀ x ∈ live, ∀ y ∈ live, (AgeCompare.gt x.ptr y.ptr = true ↔ x.serial < y.serial)
  le : ∀ x ∈ live, ∀ y ∈ live, (AgeCompare.le x.ptr y.ptr = true ↔ y.serial ≤ x.serial)
  ge : ∀ x ∈ live, ∀ y ∈ live, (AgeCompare.ge x.ptr y.ptr = true ↔ x.serial ≤ y.serial)
  eq : ∀ x ∈ live, ∀ y ∈ live, (AgeCompare.eq x.ptr y.ptr = true ↔ x = y)
  ne : ∀ x ∈ live, ∀ y ∈ live, (AgeCompare.ne x.ptr y.ptr = true ↔ x ≠ y)

theorem Live.ageIsOrder (hn : 0 < n) (h : Live s a b) : AgeIsOrder s.rob.entries := by
  have hlt (x : RobEntry) (hx : x ∈ s.rob.entries) (y : RobEntry) (hy : y ∈ s.rob.entries) :=
    h.lt_iff hn hx hy
  have heq (x : RobEntry) (hx : x ∈ s.rob.entries) (y : RobEntry) (hy : y ∈ s.rob.entries) :
      x.ptr = y.ptr ↔ x = y := ⟨h.eq_of_ptr hn hx hy, fun h => by rw [h]⟩
  have hserial (x : RobEntry) (hx : x ∈ s.rob.entries) (y : RobEntry) (hy : y ∈ s.rob.entries) :
      x = y ↔ x.serial = y.serial := ⟨fun h => by rw [h], h.eq_of_serial hn hx hy⟩
  refine ⟨?_, hlt, ?_, ?_, ?_, ?_, ?_⟩
  · refine { trichotomous := ?_, irrefl := ?_, trans := ?_ }
    · rintro ⟨x, hx⟩ ⟨y, hy⟩ hxy hyx
      rw [hlt x hx y hy] at hxy
      rw [hlt y hy x hx] at hyx
      exact Subtype.ext ((hserial x hx y hy).mpr (by omega))
    · rintro ⟨x, hx⟩ hxx
      rw [hlt x hx x hx] at hxx
      exact Nat.lt_irrefl _ hxx
    · rintro ⟨x, hx⟩ ⟨y, hy⟩ ⟨z, hz⟩ hxy hyz
      rw [hlt x hx y hy] at hxy
      rw [hlt y hy z hz] at hyz
      exact (hlt x hx z hz).mpr (by omega)
  · intro x hx y hy
    rw [AgeCompare.gt_eq_lt, hlt y hy x hx]
  · intro x hx y hy
    rw [AgeCompare.le, Bool.or_eq_true, hlt x hx y hy, AgeCompare.eq_iff, heq x hx y hy,
      hserial x hx y hy]
    omega
  · intro x hx y hy
    rw [AgeCompare.ge, Bool.or_eq_true, AgeCompare.gt_eq_lt, hlt y hy x hx, AgeCompare.eq_iff,
      heq x hx y hy, hserial x hx y hy]
    omega
  · intro x hx y hy
    rw [AgeCompare.eq_iff, heq x hx y hy]
  · intro x hx y hy
    rw [AgeCompare.ne_iff, Ne, heq x hx y hy]

/-- **The comparison of ages is program order.** In every history of a ROB of any size the live
entries are strictly and totally ordered by their pairs as they were pushed; the filter of a flush
squashes exactly what is younger than the instruction it names, and the one that includes equality
that instruction as well; and a recovery takes exactly the instructions out of the ROB whose copies
it squashes. -/
theorem age_programOrder (hn : 0 < n) (cycles : List RobCycle) (s : RobHistory n)
    (hrun : ({} : RobHistory n).run cycles = some s) :
    AgeIsOrder s.rob.entries ∧
    (∀ r : Recovery, r.entry ∈ s.rob.entries → ∀ y ∈ s.rob.entries,
      (r.feedback.squashes y.ptr = true ↔ r.entry.serial < y.serial) ∧
      (r.feedback.squashesEqual y.ptr = true ↔ r.entry.serial ≤ y.serial)) ∧
    (∀ c s', c.flush = false → s.cycle c = some s' → ∀ e ∈ s.pending,
      (e ∈ s'.rob.entries ↔ ∀ r, c.recovery = some r → r.squashes e.ptr = false)) := by
  obtain ⟨a, b, h⟩ := live_init.run hn hrun
  refine ⟨h.ageIsOrder hn, fun r hr y hy => ?_, fun c s' hflush hcycle e he => ?_⟩
  · exact ⟨h.squashes_iff hn (r := ⟨.bru, r.entry⟩) hr hy,
      h.squashes_iff hn (r := ⟨.sau, r.entry⟩) hr hy⟩
  · exact h.kept_iff hn hflush hcycle he

/-- Four slots, the ring gone round once, and a branch that takes back two instructions. -/
def wrapScript : List RobCycle :=
  [{ pushes := 3 }, { finished := fun e => e.serial < 2 }, { pops := 2, pushes := 1 },
    { pushes := 2 }, { recovery := some ⟨.bru, ⟨⟨3, false⟩, 3⟩⟩ }, { pushes := 1 }]

theorem age_programOrder_wrap :
    AgeIsOrder [⟨⟨2, false⟩, 2⟩, ⟨⟨3, false⟩, 3⟩, ⟨⟨0, true⟩, 6⟩] :=
  (age_programOrder (n := 4) (by decide) wrapScript _ rfl).1

/-- The flush of the SAU squashes the load it starts again from. -/
theorem sau_squashesItself :
    ¬ ∀ (n : Nat) (cycles : List RobCycle) (s : RobHistory n), 0 < n →
      ({} : RobHistory n).run cycles = some s → ∀ x ∈ s.rob.entries, ∀ y ∈ s.rob.entries,
        (Recovery.squashes ⟨.sau, x⟩ y.ptr = true ↔ x.serial < y.serial) := by
  intro h
  have hload := h 4 [{ pushes := 2 }] _ (by decide) rfl ⟨⟨1, false⟩, 1⟩ (by decide)
    ⟨⟨1, false⟩, 1⟩ (by decide)
  exact absurd (hload.mp (by decide)) (Nat.lt_irrefl 1)

end RobHistory

end DreamCore
