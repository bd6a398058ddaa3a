import DreamCore.Component.Fifo
import DreamCore.Lib.RegisteredQueue
import Mathlib.Algebra.Group.Nat.Defs

/-!
# What the registered FIFO is a queue of

`fifo.h` answers from three mixtures of its registers. The producer's functions put
the fresh write pointer against the old read pointer, the customer's the other way
round, and the `new_` functions compare the two fresh ones. Seen as a queue these are
three lists: what this cycle began with or pushed, what it began with and has not
popped, and what is really left.

The pointers are kept apart from the queue. They carry one stage bit each, and the
queue has none: its elements have places, counted from the last flush, and slot and
stage are what a place folds to.
-/

namespace DreamCore

open Ring

namespace Fifo

variable {n : Nat} {α : Type}

/-! ## The rest of the component -/

def customerIsFull (cur new : Fifo n α) : Bool := cur.wptr.full new.rptr

def newIsEmpty (new : Fifo n α) : Bool := new.wptr == new.rptr

def newIsFull (new : Fifo n α) : Bool := new.wptr.full new.rptr

/-- `new_push`. -/
def newPush (new : Fifo n α) (x : α) : Option (Fifo n α) :=
  if newIsFull new then none
  else some { new with
    buffer := Function.update new.buffer new.wptr.id x
    wptr := new.wptr.next n }

/-- The count behind the `get_used_space` functions, in the 32 bits the source computes it in. -/
def usedSpace (n : Nat) (rptr wptr : Ptr) (full : Bool) : Nat :=
  if full then n
  else (BitVec.ofNat 32 wptr.id + BitVec.ofNat 32 n - BitVec.ofNat 32 rptr.id).toNat % n

/-- `producer_get_used_space`, with its 32-bit sum. -/
def producerUsedSpace (cur new : Fifo n α) : Nat :=
  usedSpace n cur.rptr new.wptr (producerIsFull cur new)

/-- `customer_get_used_space`. -/
def customerUsedSpace (cur new : Fifo n α) : Nat :=
  usedSpace n new.rptr cur.wptr (customerIsFull cur new)

/-- `new_get_used_space`, with its 32-bit sum. -/
def newUsedSpace (new : Fifo n α) : Nat := usedSpace n new.rptr new.wptr (newIsFull new)

def producerGetFrontIdStage (cur new : Fifo n α) : Option Ptr :=
  if producerIsEmpty cur new then none else some cur.rptr

def customerGetFrontIdStage (cur new : Fifo n α) : Option Ptr :=
  if customerIsEmpty cur new then none else some new.rptr

/-- The slot before a write pointer and its stage, in 32 bits. -/
def tailIdStage (n : Nat) (wptr : Ptr) : Ptr :=
  ⟨(BitVec.ofNat 32 wptr.id + BitVec.ofNat 32 n - 1).toNat % n,
    if wptr.id == 0 then !wptr.stage else wptr.stage⟩

/-- `producer_get_tail_id_stage`, with its 32-bit sum. -/
def producerTailIdStage (cur new : Fifo n α) : Option Ptr :=
  if producerIsEmpty cur new then none else some (tailIdStage n new.wptr)

/-- `customer_get_tail_id_stage`. -/
def customerTailIdStage (cur new : Fifo n α) : Option Ptr :=
  if customerIsEmpty cur new then none else some (tailIdStage n cur.wptr)

/-- Both values of every cell. -/
structure Cells (n : Nat) (α : Type) where
  cur : Fifo n α
  new : Fifo n α

open RegisteredQueue (Op Answer)

/-- What a push returns, from what it made of the fresh values. -/
def offered (c : Cells n α) : Option (Fifo n α) → Answer α × Cells n α
  | some new => (.accepted true, { c with new := new })
  | none => (.accepted false, c)

/-- One call of the component. A rollback hands back the slot and stage of a place, and
`sync_all` lets every cell take over its fresh value. -/
def exec : Op α → Cells n α → Answer α × Cells n α
  | .push x, c => offered c (push c.cur c.new x)
  | .newPush x, c => offered c (newPush c.new x)
  | .pop, c =>
      match pop c.cur c.new with
      | some (x, new) => (.taken (some x), { c with new := new })
      | none => (.taken none, c)
  | .rollback k, c => (.done, { c with new := updateWptr c.new (Ptr.fold n k) })
  | .flush, c => (.done, { c with new := flush c.new })
  | .sync, c => (.done, ⟨c.new, c.new⟩)

/-- The constructor, over cells that hold anything. -/
def init (n : Nat) (buffer : Nat → α) : Cells n α := ⟨⟨buffer, ⟨0, false⟩, ⟨0, false⟩⟩,
  ⟨buffer, ⟨0, false⟩, ⟨0, false⟩⟩⟩

/-! ## What agreement means -/

/-- The counts of a view are those of the list `l`. -/
structure Counts (n : Nat) (l : List α) (used : Nat) (empty full : Bool) : Prop where
  used : used = l.length
  empty : empty = true ↔ l = []
  full : full = true ↔ l.length = n

/-- The ids of a view are the slots of `count` elements from place `first` on, its front and
its tail are the slot and stage of the first and the last of them. -/
structure Locates (n first count : Nat) (valid : Nat → Bool) (front tail : Option Ptr) :
    Prop where
  valid : ∀ id, valid id = true ↔ ∃ k, first ≤ k ∧ k < first + count ∧ id = k % n
  front : front = if count = 0 then none else some (Ptr.fold n first)
  tail : tail = if count = 0 then none else some (Ptr.fold n (first + count - 1))

/-- **Every view of the component shows its list of the queue.** The producer and the customer
compare with registers a flush does not reach, so theirs hold until a flush of the cycle. -/
structure Agrees (c : Cells n α) (q : RegisteredQueue n α) : Prop where
  producer : q.flushed = false →
    Counts n q.items (producerUsedSpace c.cur c.new) (producerIsEmpty c.cur c.new)
        (producerIsFull c.cur c.new) ∧
      Locates n q.first q.items.length (producerCheckIdValid c.cur c.new)
        (producerGetFrontIdStage c.cur c.new) (producerTailIdStage c.cur c.new)
  customer : q.flushed = false →
    Counts n q.waiting (customerUsedSpace c.cur c.new) (customerIsEmpty c.cur c.new)
        (customerIsFull c.cur c.new) ∧
      Locates n q.front q.waiting.length (customerCheckIdValid c.cur c.new)
        (customerGetFrontIdStage c.cur c.new) (customerTailIdStage c.cur c.new)
  new : Counts n q.current (newUsedSpace c.new) (newIsEmpty c.new) (newIsFull c.new)

/-- What a caller may ask. After a flush of the cycle only `new_push` compares the right
registers, and a pop after a rollback of the cycle must not reach what the rollback took. -/
def Disciplined (q : RegisteredQueue n α) : Op α → Prop
  | .push _ => q.flushed = false
  | .newPush _ => q.flushed = true
  | .pop => q.flushed = false ∧ (q.popped < q.kept ∨ q.kept = q.opening.length)
  | .rollback k => q.front ≤ k ∧ k ≤ q.last
  | .flush | .sync => True

instance (q : RegisteredQueue n α) (op : Op α) : Decidable (Disciplined q op) := by
  cases op <;> unfold Disciplined <;> infer_instance

/-! ## What the pointers say -/

variable {c : Cells n α} {q : RegisteredQueue n α} {a b : Nat}

/-- Up to 2³¹ cells the 32-bit count is the gap between the pointers. -/
theorem usedSpace_fold (hn : 0 < n) (hsize : n ≤ 2 ^ 31) (hab : a ≤ b) (hb : b ≤ a + n) :
    usedSpace n (Ptr.fold n a) (Ptr.fold n b) ((Ptr.fold n b).full (Ptr.fold n a)) = b - a := by
  have ha := Nat.mod_lt a hn
  have hb' := Nat.mod_lt b hn
  have hword : (BitVec.ofNat 32 (b % n) + BitVec.ofNat 32 n - BitVec.ofNat 32 (a % n)).toNat
      = b % n + n - a % n := by
    simp only [BitVec.toNat_sub, BitVec.toNat_add, BitVec.toNat_ofNat]
    omega
  rw [← Ptr.gap_fold hn hab hb, usedSpace, Ptr.gap, Ptr.full_comm]
  simp only [Ptr.fold_id]
  rw [hword]

/-- Up to 2³¹ cells the tail is the position before the write pointer. -/
theorem tailIdStage_fold (hn : 0 < n) (hsize : n ≤ 2 ^ 31) (k : Nat) :
    tailIdStage n (Ptr.fold n (k + 1)) = Ptr.fold n k := by
  have hk := Nat.mod_lt (k + 1) hn
  have hword : (BitVec.ofNat 32 ((k + 1) % n) + BitVec.ofNat 32 n - 1).toNat
      = (k + 1) % n + n - 1 := by
    have hone : (1 : BitVec 32).toNat = 1 := rfl
    simp only [BitVec.toNat_sub, BitVec.toNat_add, BitVec.toNat_ofNat, hone]
    omega
  refine Eq.trans ?_ (Ptr.prev_fold hn k)
  rw [tailIdStage, Ptr.fold_id, hword]

theorem counts_fold (hn : 0 < n) (hsize : n ≤ 2 ^ 31) {l : List α} (hlen : b = a + l.length)
    (hl : l.length ≤ n) :
    Counts n l (usedSpace n (Ptr.fold n a) (Ptr.fold n b) ((Ptr.fold n b).full (Ptr.fold n a)))
      (Ptr.fold n b == Ptr.fold n a) ((Ptr.fold n b).full (Ptr.fold n a)) where
  used := by
    rw [usedSpace_fold hn hsize (by omega) (by omega)]
    omega
  empty := by
    rw [beq_iff_eq, eq_comm, Ptr.fold_eq_iff hn (by omega) (by omega), ← List.length_eq_zero_iff]
    omega
  full := by
    rw [Ptr.full_comm, Ptr.full_fold hn (by omega) (by omega)]
    omega

theorem locates_fold (hn : 0 < n) (hsize : n ≤ 2 ^ 31) {count : Nat} (hlen : b = a + count)
    (hl : count ≤ n) :
    Locates n a count (checkIdValid n (Ptr.fold n a) (Ptr.fold n b))
      (if Ptr.fold n b == Ptr.fold n a then none else some (Ptr.fold n a))
      (if Ptr.fold n b == Ptr.fold n a then none else some (tailIdStage n (Ptr.fold n b))) := by
  have hempty : (Ptr.fold n b == Ptr.fold n a) = true ↔ count = 0 := by
    rw [beq_iff_eq, eq_comm, Ptr.fold_eq_iff hn (by omega) (by omega)]
    omega
  refine ⟨fun id => ?_, ?_, ?_⟩
  · rw [checkIdValid_fold hn (by omega) (by omega), hlen]
  · simp only [hempty]
  · simp only [hempty]
    by_cases hc : count = 0
    · rw [if_pos hc, if_pos hc]
    · have hb : b = (a + count - 1) + 1 := by omega
      rw [if_neg hc, if_neg hc, hb, tailIdStage_fold hn hsize]

/-! ## One cell array, one queue -/

/-- The registers and cells are those of the queue. -/
structure Realizes (c : Cells n α) (q : RegisteredQueue n α) : Prop where
  rptr : c.new.rptr = Ptr.fold n q.front
  wptr : c.new.wptr = Ptr.fold n q.last
  cells : slots n c.new.buffer q.first q.last = q.items
  /-- The old values, until a flush makes them those of another queue. -/
  opening : q.flushed = false → c.cur.rptr = Ptr.fold n q.first ∧
    c.cur.wptr = Ptr.fold n (q.first + q.opening.length) ∧
    slots n c.cur.buffer q.first (q.first + q.opening.length) = q.opening

theorem last_le (q : RegisteredQueue n α) : q.last ≤ q.first + n := by
  have hr := q.items_room
  rw [RegisteredQueue.last]
  omega

theorem current_length (q : RegisteredQueue n α) : q.last = q.front + q.current.length := by
  have hp := q.popped_le_items
  rw [RegisteredQueue.last, RegisteredQueue.front, RegisteredQueue.current, List.length_drop]
  omega

theorem waiting_length (q : RegisteredQueue n α) :
    q.first + q.opening.length = q.front + q.waiting.length := by
  have hp := q.popped_le_opening
  rw [RegisteredQueue.front, RegisteredQueue.waiting, List.length_drop]
  omega

/-- **The views of a realized queue.** -/
theorem Realizes.agrees (hn : 0 < n) (hsize : n ≤ 2 ^ 31) (h : Realizes c q) : Agrees c q where
  producer := by
    intro hflushed
    obtain ⟨hr, -, -⟩ := h.opening hflushed
    have hvalid : producerCheckIdValid c.cur c.new
        = checkIdValid n (Ptr.fold n q.first) (Ptr.fold n q.last) := by
      rw [← hr, ← h.wptr]
      rfl
    simp only [producerUsedSpace, producerIsEmpty, producerIsFull, producerGetFrontIdStage,
      producerTailIdStage, hr, h.wptr, hvalid]
    exact ⟨counts_fold hn hsize rfl q.items_room, locates_fold hn hsize rfl q.items_room⟩
  customer := by
    intro hflushed
    obtain ⟨-, hw, -⟩ := h.opening hflushed
    have hlen := waiting_length q
    have hroom : q.waiting.length ≤ n := by
      have := q.opening_room
      rw [RegisteredQueue.waiting, List.length_drop]
      omega
    have hvalid : customerCheckIdValid c.cur c.new
        = checkIdValid n (Ptr.fold n q.front) (Ptr.fold n (q.first + q.opening.length)) := by
      rw [← hw, ← h.rptr]
      rfl
    simp only [customerUsedSpace, customerIsEmpty, customerIsFull, customerGetFrontIdStage,
      customerTailIdStage, hw, h.rptr, hvalid]
    exact ⟨counts_fold hn hsize hlen hroom, locates_fold hn hsize hlen hroom⟩
  new := by
    have hroom : q.current.length ≤ n := by
      have := q.items_room
      rw [RegisteredQueue.current, List.length_drop]
      omega
    simp only [newUsedSpace, newIsEmpty, newIsFull, h.rptr, h.wptr]
    exact counts_fold hn hsize (current_length q) hroom

theorem realizes_init (buffer : Nat → α) :
    Realizes (init n buffer) (RegisteredQueue.empty n α) := by
  have hzero := (Ptr.fold_zero n).symm
  exact ⟨hzero, hzero, slots_self _, fun _ => ⟨hzero, hzero, slots_self _⟩⟩

/-- What an accepted push writes, whichever view it asked. -/
theorem Realizes.write (hn : 0 < n) (h : Realizes c q) {x : α} {q' : RegisteredQueue n α}
    (hq : q.push x = some q') :
    Realizes ⟨c.cur, { c.new with
      buffer := Function.update c.new.buffer c.new.wptr.id x
      wptr := c.new.wptr.next n }⟩ q' := by
  obtain ⟨hroom, hitems, hfirst, hpopped, hopening, hflushed⟩ := RegisteredQueue.push_eq_some hq
  have hfront : q'.front = q.front := by
    rw [RegisteredQueue.front, RegisteredQueue.front, hfirst, hpopped]
  have hlast : q'.last = q.last + 1 := by
    rw [RegisteredQueue.last, RegisteredQueue.last, hfirst, hitems, List.length_append]
    rfl
  refine ⟨?_, ?_, ?_, ?_⟩
  · rw [hfront]
    exact h.rptr
  · rw [hlast, ← Ptr.next_fold hn, ← h.wptr]
  · have hle : q.first ≤ q.last := Nat.le_add_right ..
    have hlt : q.last < q.first + n := by
      rw [RegisteredQueue.last]
      omega
    have hid : c.new.wptr.id = q.last % n := by rw [h.wptr, Ptr.fold_id]
    dsimp only
    rw [hfirst, hlast, hitems, hid, slots_succ_right _ hle,
      slots_update _ _ (Nat.le_refl _) hlt, h.cells, Function.update_self]
  · rw [hfirst, hopening, hflushed]
    exact h.opening

/-- A push whose test for a full queue is right about the producer's list. -/
theorem Realizes.offer (hn : 0 < n) (h : Realizes c q) {full : Bool} (x : α)
    (hfull : full = true ↔ q.last = q.first + n) :
    let pushed := offered c (if full then none else some { c.new with
      buffer := Function.update c.new.buffer c.new.wptr.id x
      wptr := c.new.wptr.next n })
    pushed.1 = (RegisteredQueue.exec (.push x) q).1 ∧
      Realizes pushed.2 (RegisteredQueue.exec (.push x) q).2 := by
  cases hq : q.push x with
  | none =>
      have hlen := RegisteredQueue.push_eq_none hq
      have hyes : full = true := hfull.mpr (by rw [RegisteredQueue.last, hlen])
      simp only [RegisteredQueue.exec, hq, hyes, if_true, offered]
      exact ⟨trivial, h⟩
  | some q' =>
      have hroom := (RegisteredQueue.push_eq_some hq).1
      have hno : full = false := by
        rw [Bool.eq_false_iff, Ne, hfull, RegisteredQueue.last]
        omega
      simp only [RegisteredQueue.exec, hq, hno, Bool.false_eq_true, if_false, offered]
      exact ⟨trivial, h.write hn hq⟩

/-- **A push is refused exactly when the producer's list is full.** -/
theorem Realizes.push (hn : 0 < n) (h : Realizes c q) (hflushed : q.flushed = false) (x : α) :
    (exec (.push x) c).1 = (RegisteredQueue.exec (.push x) q).1 ∧
      Realizes (exec (.push x) c).2 (RegisteredQueue.exec (.push x) q).2 :=
  h.offer hn x (producerIsFull_iff hn (h.opening hflushed).1 h.wptr (Nat.le_add_right ..)
    (last_le q))

/-- **In a flushed cycle `new_push` fills the empty queue.** -/
theorem Realizes.newPush (hn : 0 < n) (h : Realizes c q) (hflushed : q.flushed = true) (x : α) :
    (exec (.newPush x) c).1 = (RegisteredQueue.exec (.newPush x) q).1 ∧
      Realizes (exec (.newPush x) c).2 (RegisteredQueue.exec (.newPush x) q).2 := by
  have hfirst : q.front = q.first := by
    rw [RegisteredQueue.front, RegisteredQueue.popped_of_flushed hflushed, Nat.add_zero]
  have hfull : newIsFull c.new = true ↔ q.last = q.first + n := by
    rw [newIsFull, h.rptr, h.wptr, Ptr.full_comm, hfirst]
    exact Ptr.full_fold hn (Nat.le_add_right ..) (last_le q)
  exact h.offer hn x hfull

/-- **A pop takes the oldest element the cycle began with**, as long as no rollback of the
cycle has taken that one. -/
theorem Realizes.pop (hn : 0 < n) (h : Realizes c q) (hflushed : q.flushed = false)
    (hleft : q.popped < q.kept ∨ q.kept = q.opening.length) :
    (exec .pop c).1 = (RegisteredQueue.exec .pop q).1 ∧
      Realizes (exec .pop c).2 (RegisteredQueue.exec .pop q).2 := by
  obtain ⟨-, hw, hcells⟩ := h.opening hflushed
  have hle := q.popped_le_opening
  have hempty : customerIsEmpty c.cur c.new = true ↔ q.front = q.first + q.opening.length := by
    have := q.opening_room
    exact customerIsEmpty_iff hn h.rptr hw (Nat.add_le_add_left hle _)
      (by rw [RegisteredQueue.front]; omega)
  cases hq : q.pop with
  | none =>
      have hnone := RegisteredQueue.pop_eq_none hq
      have hc : Fifo.pop c.cur c.new = none :=
        if_pos (hempty.mpr (by rw [RegisteredQueue.front]; omega))
      simp only [exec, RegisteredQueue.exec, hc, hq]
      exact ⟨trivial, h⟩
  | some r =>
      obtain ⟨x, q'⟩ := r
      obtain ⟨hlt, hx, hpopped, hitems, hfirst, hopening, hflushed'⟩ :=
        RegisteredQueue.pop_eq_some hq
      have hkept := q.kept_le
      have hcell : c.cur.buffer c.new.rptr.id = x := by
        have hat := slots_getElem? (n := n) (a := q.first) (k := q.popped)
          (b := q.first + q.opening.length) c.cur.buffer (by omega)
        rw [hcells, hx, ← RegisteredQueue.front, ← Ptr.fold_id, ← h.rptr] at hat
        exact (Option.some.inj hat).symm
      have hc : Fifo.pop c.cur c.new = some (x, { c.new with rptr := c.new.rptr.next n }) := by
        rw [Fifo.pop, if_neg, hcell]
        intro he
        have := hempty.mp he
        rw [RegisteredQueue.front] at this
        omega
      have hfront : q'.front = q.front + 1 := by
        rw [RegisteredQueue.front, RegisteredQueue.front, hfirst, hpopped]
        omega
      have hlast : q'.last = q.last := by
        rw [RegisteredQueue.last, RegisteredQueue.last, hfirst, hitems]
      simp only [exec, RegisteredQueue.exec, hc, hq]
      refine ⟨trivial, ?_, ?_, ?_, ?_⟩
      · rw [hfront, ← Ptr.next_fold hn, ← h.rptr]
      · rw [hlast]
        exact h.wptr
      · rw [hfirst, hlast, hitems]
        exact h.cells
      · rw [hfirst, hopening, hflushed']
        exact h.opening

/-- **A rollback to a place still in the queue** takes back that element and all after it. -/
theorem Realizes.rollback (h : Realizes c q) {k : Nat} (hfront : q.front ≤ k)
    (hlast : k ≤ q.last) :
    Realizes ⟨c.cur, updateWptr c.new (Ptr.fold n k)⟩ (q.rollback k) := by
  have hfirst : q.first ≤ k := Nat.le_trans (Nat.le_add_right ..) hfront
  obtain ⟨hfirst', hpopped', hopening', hflushed'⟩ := RegisteredQueue.rollback_rest (q := q) (k := k)
  have hitems := RegisteredQueue.rollback_items hfront
  have hend : (q.rollback k).last = k := by
    rw [RegisteredQueue.last] at hlast ⊢
    rw [hfirst', hitems, List.length_take]
    omega
  refine ⟨?_, ?_, ?_, ?_⟩
  · rw [RegisteredQueue.front, hfirst', hpopped']
    exact h.rptr
  · rw [hend, updateWptr_wptr]
  · have hk : q.first + (k - q.first) = k := by omega
    rw [hfirst', hend, hitems, ← h.cells, slots_take _ (by omega), hk]
    rfl
  · rw [hfirst', hopening', hflushed']
    exact h.opening

theorem Realizes.flush (c : Cells n α) (q : RegisteredQueue n α) :
    Realizes ⟨c.cur, Fifo.flush c.new⟩ q.flush := by
  have hzero := (Ptr.fold_zero n).symm
  exact ⟨hzero, hzero, slots_self _, fun h => by cases h⟩

/-- **The tick** turns what is left into what the next cycle begins with. -/
theorem Realizes.sync (h : Realizes c q) : Realizes ⟨c.new, c.new⟩ q.sync := by
  have hlast : q.sync.last = q.last := by
    rw [RegisteredQueue.last, RegisteredQueue.sync_items, current_length q]
    rfl
  have hcells : slots n c.new.buffer q.front q.last = q.current := by
    rw [RegisteredQueue.current, ← h.cells, slots_drop]
    rfl
  refine ⟨h.rptr, hlast ▸ h.wptr, ?_, fun _ => ⟨h.rptr, ?_, ?_⟩⟩
  · rw [hlast, RegisteredQueue.sync_items]
    exact hcells
  · rw [h.wptr, current_length q]
    rfl
  · rw [current_length q] at hcells
    exact hcells

/-- **Every allowed call is answered alike and keeps the two together.** -/
theorem Realizes.exec (hn : 0 < n) (h : Realizes c q) (op : Op α) (hop : Disciplined q op) :
    (Fifo.exec op c).1 = (RegisteredQueue.exec op q).1 ∧
      Realizes (Fifo.exec op c).2 (RegisteredQueue.exec op q).2 := by
  cases op with
  | push x => exact h.push hn hop x
  | newPush x => exact h.newPush hn hop x
  | pop => exact h.pop hn hop.1 hop.2
  | rollback k => exact ⟨rfl, h.rollback hop.1 hop.2⟩
  | flush => exact ⟨rfl, Realizes.flush c q⟩
  | sync => exact ⟨rfl, h.sync⟩

/-! ## The refinement -/

open Answering

/-- **The FIFO is the queue.** Over any run of allowed calls, the two give the same answers and
end with every view in agreement; and what the pops of the run took was pushed in earlier
cycles, in that order and once each. -/
theorem refines_queue (hn : 0 < n) (hsize : n ≤ 2 ^ 31) (buffer : Nat → α) (ops : List (Op α))
    (hops : Allowed Disciplined RegisteredQueue.exec ops (.empty n α)) :
    answers exec ops (init n buffer) = answers RegisteredQueue.exec ops (.empty n α) ∧
    Agrees (after exec ops (init n buffer)) (after RegisteredQueue.exec ops (.empty n α)) ∧
    ∀ early cycle, ops = early ++ cycle → Op.sync ∉ cycle →
      (RegisteredQueue.taken (answers exec ops (init n buffer))).Sublist
        (RegisteredQueue.entered early (answers exec early (init n buffer))) := by
  have hrun := run_eq (fun op h hop => Realizes.exec hn h op hop) (realizes_init buffer) hops
  refine ⟨hrun.1, hrun.2.agrees hn hsize, fun early cycle heq hcycle => ?_⟩
  subst heq
  have hearly := run_eq (fun op h hop => Realizes.exec hn h op hop) (realizes_init buffer)
    (allowed_append hops)
  rw [hrun.1, hearly.1]
  exact RegisteredQueue.taken_sublist early hcycle

/-- Two cells, round the ring and back: the push that finds the ring full is refused although a
pop of the cycle has made room, a rollback frees the place again, and a flushed ring is refilled. -/
theorem refines_queue_wraps :
    let ops : List (Op Nat) := [.push 1, .push 2, .sync, .pop, .push 3, .sync, .push 3, .rollback 2,
      .push 4, .pop, .sync, .pop, .pop, .flush, .newPush 5, .newPush 6, .newPush 7, .sync, .pop]
    answers exec ops (init 2 (fun _ => 0)) = [.accepted true, .accepted true, .done,
      .taken (some 1), .accepted false, .done, .accepted true, .done, .accepted true,
      .taken (some 2), .done, .taken (some 4), .taken none, .done, .accepted true, .accepted true,
      .accepted false, .done, .taken (some 5)] ∧
    answers exec ops (init 2 (fun _ => 0)) = answers RegisteredQueue.exec ops (.empty 2 Nat) ∧
    Agrees (after exec ops (init 2 (fun _ => 0)))
      (after RegisteredQueue.exec ops (.empty 2 Nat)) := by
  intro ops
  have hrun := refines_queue (n := 2) (by decide) (by decide) (fun _ => 0) ops (by decide +kernel)
  exact ⟨by decide +kernel, hrun.1, hrun.2.1⟩

/-- All that is asked of the calls: a rollback goes to a place still in the queue. -/
def RollsBackInside (q : RegisteredQueue n α) : Op α → Prop
  | .rollback k => q.front ≤ k ∧ k ≤ q.last
  | _ => True

instance (q : RegisteredQueue n α) (op : Op α) : Decidable (RollsBackInside q op) := by
  cases op <;> unfold RollsBackInside <;> infer_instance

/-- The answers differ from the queue's in a run in which every rollback stays inside. -/
def Departs (n : Nat) (ops : List (Op Nat)) : Prop :=
  Allowed RollsBackInside RegisteredQueue.exec ops (.empty n Nat) ∧
    answers exec ops (init n fun _ => 0) ≠ answers RegisteredQueue.exec ops (.empty n Nat)

instance (n : Nat) (ops : List (Op Nat)) : Decidable (Departs n ops) := by
  unfold Departs
  infer_instance

/-- The tail of the producer's view is not that of the queue after such a run. -/
def TailDeparts (n : Nat) (ops : List (Op Nat)) : Prop :=
  let c := after exec ops (init n fun _ => 0)
  let q := after RegisteredQueue.exec ops (.empty n Nat)
  Allowed RollsBackInside RegisteredQueue.exec ops (.empty n Nat) ∧ q.items ≠ [] ∧
    producerTailIdStage c.cur c.new ≠ some (Ptr.fold n (q.last - 1))

instance (n : Nat) (ops : List (Op Nat)) : Decidable (TailDeparts n ops) := by
  unfold TailDeparts
  infer_instance

/-- **What the queue does not show.** A push after a flush meets the old read pointer and is
refused by an empty ring; a pop after a flush, or after a rollback, takes an element that is
gone; a ring without cells accepts a push; and beyond 2³¹ cells the tail is off. -/
theorem queue_limits :
    Departs 1 [.push 7, .sync, .pop, .sync, .flush, .push 8] ∧
    Departs 1 [.push 7, .sync, .flush, .pop] ∧
    Departs 4 [.push 7, .push 8, .sync, .rollback 1, .pop, .pop] ∧
    Departs 0 [.push 7] ∧
    TailDeparts (2 ^ 32 - 1) [.push 7, .push 8] := by
  decide +kernel

end Fifo

end DreamCore
