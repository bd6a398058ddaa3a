import DreamCore.Lib.Ring

/-!
# The registered FIFO

Every cell of `fifo.h` is a `dff`: a read with `get` sees the value at the start
of the cycle, a read with `get_new` sees what has been written since. The model
keeps the two snapshots apart by name. `cur` is the component as the cycle began
and never changes within a cycle; `new` is threaded through the stages, and
becomes the next cycle's `cur` when `sync_all` runs.

The producer compares its own fresh write pointer with the *old* read pointer,
so this cycle's pops do not make room. The customer compares its fresh read
pointer with the *old* write pointer, so this cycle's pushes cannot be popped.
-/

namespace DreamCore

open Ring

/-- `fifo<T>` of `fifo.h`, one snapshot of its registers. -/
structure Fifo (n : Nat) (α : Type) where
  buffer : Nat → α
  rptr : Ptr := ⟨0, false⟩
  wptr : Ptr := ⟨0, false⟩

namespace Fifo

variable {n : Nat} {α : Type}

/-- `reset` and `flush`. The cells keep what they hold. -/
def flush (new : Fifo n α) : Fifo n α := { new with rptr := ⟨0, false⟩, wptr := ⟨0, false⟩ }

def producerIsEmpty (cur new : Fifo n α) : Bool := new.wptr == cur.rptr

def customerIsEmpty (cur new : Fifo n α) : Bool := cur.wptr == new.rptr

def producerIsFull (cur new : Fifo n α) : Bool := new.wptr.full cur.rptr

/-- `push`; `none` stands for the `false` it returns when the producer sees it full. -/
def push (cur new : Fifo n α) (x : α) : Option (Fifo n α) :=
  if producerIsFull cur new then none
  else some { new with
    buffer := Function.update new.buffer new.wptr.id x
    wptr := new.wptr.next n }

/-- `pop`; `none` stands for the `false` it returns when the customer sees it empty. -/
def pop (cur new : Fifo n α) : Option (α × Fifo n α) :=
  if customerIsEmpty cur new then none
  else some (cur.buffer new.rptr.id, { new with rptr := new.rptr.next n })

/-- `pop` for the callers that do not look at its result. -/
def drop (cur new : Fifo n α) : Fifo n α :=
  if customerIsEmpty cur new then new else { new with rptr := new.rptr.next n }

def customerGetItem (cur : Fifo n α) (id : Nat) : α := cur.buffer id

def producerGetItem (new : Fifo n α) (id : Nat) : α := new.buffer id

def setItem (new : Fifo n α) (id : Nat) (x : α) : Fifo n α :=
  { new with buffer := Function.update new.buffer id x }

def updateWptr (new : Fifo n α) (wptr : Ptr) : Fifo n α := { new with wptr := wptr }

def customerGetFrontId (cur new : Fifo n α) : Option Nat :=
  if customerIsEmpty cur new then none else some new.rptr.id

/-- The range test behind `producer_check_id_valid` and `customer_check_id_valid`. -/
def checkIdValid (n : Nat) (rptr wptr : Ptr) (id : Nat) : Bool :=
  if wptr == rptr then false
  else if wptr.stage == rptr.stage then decide (id ≥ rptr.id) && decide (id < wptr.id)
  else (decide (id ≥ rptr.id) && decide (id < n)) || decide (id < wptr.id)

def producerCheckIdValid (cur new : Fifo n α) (id : Nat) : Bool :=
  checkIdValid n cur.rptr new.wptr id

def customerCheckIdValid (cur new : Fifo n α) (id : Nat) : Bool :=
  checkIdValid n new.rptr cur.wptr id

/-- `customer_get_next_id`: the id after `id`, and whether that one is still valid. `none`
is the failing `verify`. -/
def customerGetNextId (cur new : Fifo n α) (id : Nat) : Option (Nat × Bool) :=
  if customerCheckIdValid cur new id then
    some ((id + 1) % n, customerCheckIdValid cur new ((id + 1) % n))
  else none

/-- `producer_get_next_id`. -/
def producerGetNextId (cur new : Fifo n α) (id : Nat) : Option (Nat × Bool) :=
  if producerCheckIdValid cur new id then
    some ((id + 1) % n, producerCheckIdValid cur new ((id + 1) % n))
  else none

/-- `static_get_next_id_stage`. -/
def staticGetNextIdStage (n : Nat) (p : Ptr) : Ptr :=
  ⟨(p.id + 1) % n, decide (p.id + 1 ≥ n) != p.stage⟩

/-- `customer_get_next_id_stage`; the callers in the model drop the validity of the result,
`none` is the failing `verify`. -/
def customerGetNextIdStage (cur new : Fifo n α) (p : Ptr) : Option Ptr :=
  if customerCheckIdValid cur new p.id then some (staticGetNextIdStage n p) else none

/-- `producer_get_tail_id`. -/
def producerGetTailId (cur new : Fifo n α) : Option Nat :=
  if producerIsEmpty cur new then none else some ((new.wptr.id + n - 1) % n)

/-- `producer_get_tail_id_stage`. -/
def producerGetTailIdStage (cur new : Fifo n α) : Option Ptr :=
  if producerIsEmpty cur new then none
  else some ⟨(new.wptr.id + n - 1) % n,
    if new.wptr.id == 0 then !new.wptr.stage else new.wptr.stage⟩

/-- `new_get_used_space`. -/
def newGetUsedSpace (new : Fifo n α) : Nat := Ptr.gap n new.rptr new.wptr

/-- `producer_get_used_space`. -/
def producerGetUsedSpace (cur new : Fifo n α) : Nat := Ptr.gap n cur.rptr new.wptr

/-- What the FIFO holds, oldest first: the cells `customer_foreach` walks over. -/
def contents (f : Fifo n α) : List α :=
  (List.range (Ptr.gap n f.rptr f.wptr)).map fun i => f.buffer ((f.rptr.id + i) % n)

/-! ## Counters

`Window f a b` says that the read and write pointers of `f` are the folded
counters `a` and `b`. The lemmas below restate every pointer test over them.
-/

/-- The pointers of `f` are the counters `a` and `b`, at most one ring apart. -/
structure Window (f : Fifo n α) (a b : Nat) : Prop where
  rptr : f.rptr = Ptr.fold n a
  wptr : f.wptr = Ptr.fold n b
  le : a ≤ b
  size : b ≤ a + n

variable {cur new f : Fifo n α} {a b : Nat} {x : α}

theorem window_flush (f : Fifo n α) : Window f.flush 0 0 :=
  ⟨(Ptr.fold_zero n).symm, (Ptr.fold_zero n).symm, Nat.le_refl _, Nat.zero_le _⟩

/-- **The window shows exactly the contents.** -/
theorem Window.contents_eq (hn : 0 < n) (h : Window f a b) :
    f.contents = slots n f.buffer a b := by
  rw [contents, h.rptr, h.wptr, Ptr.gap_fold hn h.le h.size, slots, List.range'_eq_map_range,
    List.map_map]
  refine List.map_congr_left fun i _ => ?_
  simp only [Ptr.fold_id, Function.comp, Nat.mod_add_mod]

theorem customerIsEmpty_iff (hn : 0 < n) (hr : new.rptr = Ptr.fold n a)
    (hw : cur.wptr = Ptr.fold n b) (hab : a ≤ b) (hb : b ≤ a + n) :
    customerIsEmpty cur new = true ↔ a = b := by
  rw [customerIsEmpty, hr, hw, beq_iff_eq, eq_comm, Ptr.fold_eq_iff hn hab hb]

theorem producerIsEmpty_iff (hn : 0 < n) (hr : cur.rptr = Ptr.fold n a)
    (hw : new.wptr = Ptr.fold n b) (hab : a ≤ b) (hb : b ≤ a + n) :
    producerIsEmpty cur new = true ↔ a = b := by
  rw [producerIsEmpty, hr, hw, beq_iff_eq, eq_comm, Ptr.fold_eq_iff hn hab hb]

theorem producerIsFull_iff (hn : 0 < n) (hr : cur.rptr = Ptr.fold n a)
    (hw : new.wptr = Ptr.fold n b) (hab : a ≤ b) (hb : b ≤ a + n) :
    producerIsFull cur new = true ↔ b = a + n := by
  rw [producerIsFull, hr, hw, Ptr.full_comm, Ptr.full_fold hn hab hb]

/-- What a successful push did. -/
theorem push_eq_some {f' : Fifo n α} (h : push cur new x = some f') :
    producerIsFull cur new = false ∧ f'.rptr = new.rptr ∧ f'.wptr = new.wptr.next n
      ∧ f'.buffer = Function.update new.buffer new.wptr.id x := by
  unfold push at h
  split at h
  · cases h
  · rename_i hf
    cases h
    exact ⟨by simpa using hf, rfl, rfl, rfl⟩

/-- What a successful pop did. -/
theorem pop_eq_some {f' : Fifo n α} (h : pop cur new = some (x, f')) :
    customerIsEmpty cur new = false ∧ f'.rptr = new.rptr.next n ∧ f'.wptr = new.wptr
      ∧ f'.buffer = new.buffer ∧ x = cur.buffer new.rptr.id := by
  unfold pop at h
  split at h
  · cases h
  · rename_i he
    cases h
    exact ⟨by simpa using he, rfl, rfl, rfl, rfl⟩

@[simp] theorem drop_buffer : (drop cur new).buffer = new.buffer := by
  unfold drop; split <;> rfl

@[simp] theorem drop_wptr : (drop cur new).wptr = new.wptr := by
  unfold drop; split <;> rfl

theorem drop_rptr (h : customerIsEmpty cur new = false) :
    (drop cur new).rptr = new.rptr.next n := by
  simp [drop, h]

/-- **Popping narrows the window at its old end**, when the customer's write pointer is the
fresh one. -/
theorem Window.drop (hn : 0 < n) (h : Window new a b) (hw : cur.wptr = new.wptr) (hab : a < b) :
    Window (Fifo.drop cur new) (a + 1) b := by
  have he : customerIsEmpty cur new = false := by
    rw [Bool.eq_false_iff]
    intro he
    rw [customerIsEmpty_iff hn h.rptr (hw.trans h.wptr) h.le h.size] at he
    omega
  have hsize := h.size
  refine ⟨?_, drop_wptr.trans h.wptr, hab, by omega⟩
  rw [drop_rptr he, h.rptr, Ptr.next_fold hn]

/-- The same for a pop that depends on a flag. -/
theorem Window.dropIf (hn : 0 < n) (h : Window new a b) (hw : cur.wptr = new.wptr) {c : Bool}
    (hab : c = true → a < b) :
    Window (if c then Fifo.drop cur new else new) (a + c.toNat) b := by
  cases c with
  | false => exact h
  | true => exact h.drop hn hw (hab rfl)

/-- **A push widens the window at its young end**, and there was room for it counted from the
read pointer the cycle began with. -/
theorem Window.push (hn : 0 < n) (h : Window new a b) {a₀ : Nat} (hr : cur.rptr = Ptr.fold n a₀)
    (ha : a₀ ≤ a) (hb : b ≤ a₀ + n) {f' : Fifo n α} (hp : Fifo.push cur new x = some f') :
    b < a₀ + n ∧ Window f' a (b + 1) ∧ f'.buffer = Function.update new.buffer (b % n) x := by
  obtain ⟨hf, hrp, hwp, hbuf⟩ := push_eq_some hp
  have hle := h.le
  have hroom : b ≠ a₀ + n := fun he => by
    rw [← producerIsFull_iff hn hr h.wptr (Nat.le_trans ha hle) hb, hf] at he
    cases he
  refine ⟨by omega, ⟨hrp.trans h.rptr, ?_, by omega, by omega⟩, ?_⟩
  · rw [hwp, h.wptr, Ptr.next_fold hn]
  · rw [hbuf, h.wptr, Ptr.fold_id]

/-- **A pop of an entry the cycle began with**, seen from the customer. -/
theorem Window.pop (hn : 0 < n) (h : Window new a b) {b₀ : Nat} (hw : cur.wptr = Ptr.fold n b₀)
    (ha : a ≤ b₀) (hb : b₀ ≤ b) {f' : Fifo n α} (hp : Fifo.pop cur new = some (x, f')) :
    a < b₀ ∧ Window f' (a + 1) b ∧ f'.buffer = new.buffer ∧ x = cur.buffer (a % n) := by
  obtain ⟨he, hrp, hwp, hbuf, hx⟩ := pop_eq_some hp
  have hsize := h.size
  have hne : a ≠ b₀ := fun hab => by
    rw [← customerIsEmpty_iff hn h.rptr hw ha (by omega), he] at hab
    cases hab
  refine ⟨by omega, ⟨?_, hwp.trans h.wptr, by omega, by omega⟩, hbuf, ?_⟩
  · rw [hrp, h.rptr, Ptr.next_fold hn]
  · rw [hx, h.rptr, Ptr.fold_id]

/-- The tail of a window is its last counter. -/
theorem Window.producerGetTailId (hn : 0 < n) (h : Window new a (b + 1)) {id : Nat}
    (ht : Fifo.producerGetTailId cur new = some id) : id = b % n := by
  unfold Fifo.producerGetTailId at ht
  split at ht
  · cases ht
  · rw [← Option.some.inj ht, h.wptr, Ptr.fold_id]
    have hb := Nat.mod_lt b hn
    rcases Ptr.div_window (n := n) (a := b) (b := b + 1) hn (by omega) (by omega) with
      ⟨-, hm⟩ | ⟨-, hm⟩
    · rw [show (b + 1) % n + n - 1 = b % n + n by omega, Nat.add_mod_right]
      exact Nat.mod_mod ..
    · rw [show (b + 1) % n + n - 1 = b % n by omega]
      exact Nat.mod_mod ..

@[simp] theorem setItem_rptr (id : Nat) : (setItem new id x).rptr = new.rptr := rfl
@[simp] theorem setItem_wptr (id : Nat) : (setItem new id x).wptr = new.wptr := rfl
@[simp] theorem updateWptr_rptr (p : Ptr) : (updateWptr new p).rptr = new.rptr := rfl
@[simp] theorem updateWptr_wptr (p : Ptr) : (updateWptr new p).wptr = p := rfl
@[simp] theorem updateWptr_buffer (p : Ptr) : (updateWptr new p).buffer = new.buffer := rfl
@[simp] theorem flush_buffer : (flush new).buffer = new.buffer := rfl

theorem staticGetNextIdStage_fold (hn : 0 < n) (k : Nat) :
    staticGetNextIdStage n (Ptr.fold n k) = Ptr.fold n (k + 1) := Ptr.succ_fold hn k

/-- **The range test accepts exactly the slots of the window.** -/
theorem checkIdValid_fold (hn : 0 < n) (hab : a ≤ b) (hb : b ≤ a + n) {id : Nat} :
    checkIdValid n (Ptr.fold n a) (Ptr.fold n b) id = true ↔
      ∃ k, a ≤ k ∧ k < b ∧ id = k % n := by
  by_cases he : a = b
  · subst he
    simp only [checkIdValid, beq_self_eq_true, if_true]
    constructor
    · intro h; cases h
    · rintro ⟨k, h1, h2, _⟩; omega
  · have hne : (Ptr.fold n b == Ptr.fold n a) = false := by
      rw [beq_eq_false_iff_ne]
      exact fun h => he (Ptr.fold_inj hn hab hb h.symm)
    have hr := Nat.mod_lt a hn
    have hr' := Nat.mod_lt b hn
    simp only [checkIdValid, hne, if_neg (Bool.false_ne_true)]
    rcases Ptr.div_window hn hab hb with ⟨hq, hm⟩ | ⟨hq, hm⟩
    · have hst : ((Ptr.fold n b).stage == (Ptr.fold n a).stage) = true := by simp [Ptr.fold, hq]
      rw [if_pos hst]
      simp only [Bool.and_eq_true, decide_eq_true_eq]
      simp only [Ptr.fold_id]
      constructor
      · rintro ⟨h1, h2⟩
        refine ⟨a + (id - a % n), by omega, by omega, ?_⟩
        rcases Ptr.div_window (a := a) (b := a + (id - a % n)) hn (by omega) (by omega) with
          ⟨_, h⟩ | ⟨_, h⟩ <;> omega
      · rintro ⟨k, h1, h2, rfl⟩
        have hk := Nat.mod_lt k hn
        rcases Ptr.div_window (a := a) (b := k) hn h1 (by omega) with ⟨_, h⟩ | ⟨_, h⟩ <;> omega
    · have hst : ((Ptr.fold n b).stage == (Ptr.fold n a).stage) = false := by
        simp only [Ptr.fold, hq, Ptr.stage_succ]
        cases (a / n % 2 == 1) <;> rfl
      rw [if_neg (by simp [hst])]
      simp only [Bool.or_eq_true, Bool.and_eq_true, decide_eq_true_eq]
      simp only [Ptr.fold_id]
      constructor
      · rintro (⟨h1, h2⟩ | h1)
        · refine ⟨a + (id - a % n), by omega, by omega, ?_⟩
          rcases Ptr.div_window (a := a) (b := a + (id - a % n)) hn (by omega) (by omega) with
            ⟨_, h⟩ | ⟨_, h⟩ <;> omega
        · refine ⟨a + (id + n - a % n), by omega, by omega, ?_⟩
          have hk := Nat.mod_lt (a + (id + n - a % n)) hn
          rcases Ptr.div_window (a := a) (b := a + (id + n - a % n)) hn (by omega) (by omega) with
            ⟨_, h⟩ | ⟨_, h⟩ <;> omega
      · rintro ⟨k, h1, h2, rfl⟩
        have hk := Nat.mod_lt k hn
        rcases Ptr.div_window (a := a) (b := k) hn h1 (by omega) with ⟨_, h⟩ | ⟨_, h⟩ <;> omega

end Fifo

end DreamCore
