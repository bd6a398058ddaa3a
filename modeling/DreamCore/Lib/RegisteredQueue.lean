import Mathlib.Data.List.Basic

/-!
# A queue between two ticks

A clocked queue takes requests all through a cycle and moves at the tick. What it
answers within the cycle depends on which of its two sides asks. The producer sees
what the cycle began with, less what was taken back, and what has been pushed since;
the elements popped in this cycle still count for it. The customer sees what the
cycle began with and has not been popped; what was pushed in this cycle, or taken
back in it, shows at the next tick.

Places are counted from the last flush, so the element at a place never changes its
number while the queue moves on.

The second part is about any two machines that answer requests: if a relation
between them is kept and forces equal answers, they answer whole runs alike.
-/

/-- A queue of at most `n` elements, somewhere between two ticks. -/
structure RegisteredQueue (n : Nat) (α : Type) where
  /-- The place of the oldest element the cycle began with. -/
  first : Nat
  /-- What the queue held when the cycle began, oldest first. -/
  opening : List α
  /-- How many of these have been popped since. -/
  popped : Nat
  /-- How many of these no rollback has taken back. -/
  kept : Nat
  /-- This cycle's pushes that no rollback has taken back. -/
  pushed : List α
  /-- Whether the queue was flushed in this cycle. -/
  flushed : Bool
  popped_le : popped ≤ kept
  kept_le : kept ≤ opening.length
  opening_room : opening.length ≤ n
  room : kept + pushed.length ≤ n
  opening_nil : flushed = true → opening = []

namespace RegisteredQueue

variable {n : Nat} {α : Type}

/-! ## The three views -/

/-- What the producer counts: this cycle's pops are still in it. -/
def items (q : RegisteredQueue n α) : List α := q.opening.take q.kept ++ q.pushed

/-- What the customer counts: this cycle's pushes and rollbacks do not show yet. -/
def waiting (q : RegisteredQueue n α) : List α := q.opening.drop q.popped

/-- What the queue really holds. -/
def current (q : RegisteredQueue n α) : List α := q.items.drop q.popped

/-- The place of the oldest element that has not been popped. -/
def front (q : RegisteredQueue n α) : Nat := q.first + q.popped

/-- The place the next push goes to. -/
def last (q : RegisteredQueue n α) : Nat := q.first + q.items.length

variable {q q' : RegisteredQueue n α} {x : α}

theorem items_length (q : RegisteredQueue n α) : q.items.length = q.kept + q.pushed.length := by
  have hk := q.kept_le
  rw [items, List.length_append, List.length_take, Nat.min_eq_left hk]

theorem items_room (q : RegisteredQueue n α) : q.items.length ≤ n := by
  rw [q.items_length]
  exact q.room

theorem popped_le_items (q : RegisteredQueue n α) : q.popped ≤ q.items.length := by
  have hp := q.popped_le
  rw [q.items_length]
  omega

theorem popped_le_opening (q : RegisteredQueue n α) : q.popped ≤ q.opening.length :=
  Nat.le_trans q.popped_le q.kept_le

/-- After a flush nothing has been popped. -/
theorem popped_of_flushed (h : q.flushed = true) : q.popped = 0 := by
  have hp := q.popped_le_opening
  rw [q.opening_nil h] at hp
  exact Nat.le_zero.mp hp

/-! ## The requests -/

/-- The empty queue at a tick. -/
def empty (n : Nat) (α : Type) : RegisteredQueue n α where
  first := 0
  opening := []
  popped := 0
  kept := 0
  pushed := []
  flushed := false
  popped_le := Nat.le_refl 0
  kept_le := Nat.le_refl 0
  opening_room := Nat.zero_le n
  room := Nat.zero_le n
  opening_nil := fun _ => rfl

/-- A push is refused exactly when the producer counts `n` elements. -/
def push (q : RegisteredQueue n α) (x : α) : Option (RegisteredQueue n α) :=
  if h : q.items.length < n then
    some { q with
      pushed := q.pushed ++ [x]
      room := by
        rw [q.items_length] at h
        rw [List.length_append, List.length_singleton]
        omega }
  else none

/-- A pop takes the oldest element that was there when the cycle began and still is. -/
def pop (q : RegisteredQueue n α) : Option (α × RegisteredQueue n α) :=
  if h : q.popped < q.kept then
    some (q.opening.get ⟨q.popped, Nat.lt_of_lt_of_le h q.kept_le⟩,
      { q with
        popped := q.popped + 1
        popped_le := h })
  else none

/-- The elements from place `k` on are taken back. There is nothing to take back for a
place whose element has been popped. -/
def rollback (q : RegisteredQueue n α) (k : Nat) : RegisteredQueue n α :=
  if h : q.front ≤ k then
    { q with
      kept := min q.kept (k - q.first)
      pushed := q.pushed.take (k - q.first - q.kept)
      popped_le := by
        have hp := q.popped_le
        rw [front] at h
        omega
      kept_le := Nat.le_trans (Nat.min_le_left ..) q.kept_le
      room := by
        have hr := q.room
        rw [List.length_take]
        omega }
  else q

/-- Everything goes, and places are counted anew. -/
def flush (_ : RegisteredQueue n α) : RegisteredQueue n α :=
  { empty n α with
    flushed := true
    opening_nil := fun _ => rfl }

/-- The tick. -/
def sync (q : RegisteredQueue n α) : RegisteredQueue n α where
  first := q.front
  opening := q.current
  popped := 0
  kept := q.current.length
  pushed := []
  flushed := false
  popped_le := Nat.zero_le _
  kept_le := Nat.le_refl _
  opening_room := by
    have hr := q.items_room
    rw [current, List.length_drop]
    omega
  room := by
    have hr := q.items_room
    rw [current, List.length_drop]
    simp only [List.length_nil]
    omega
  opening_nil := fun h => by cases h

/-- One request to the queue. `newPush` is the push that refills a flushed queue. -/
inductive Op (α : Type) where
  | push (x : α)
  | newPush (x : α)
  | pop
  | rollback (k : Nat)
  | flush
  | sync
deriving DecidableEq

/-- What a request returns. -/
inductive Answer (α : Type) where
  | accepted (ok : Bool)
  | taken (x : Option α)
  | done
deriving DecidableEq

def exec : Op α → RegisteredQueue n α → Answer α × RegisteredQueue n α
  | .push x, q | .newPush x, q =>
      match q.push x with
      | some q' => (.accepted true, q')
      | none => (.accepted false, q)
  | .pop, q =>
      match q.pop with
      | some (x, q') => (.taken (some x), q')
      | none => (.taken none, q)
  | .rollback k, q => (.done, q.rollback k)
  | .flush, q => (.done, q.flush)
  | .sync, q => (.done, q.sync)

/-! ## What they do to the list -/

theorem push_eq_some (h : q.push x = some q') :
    q.items.length < n ∧ q'.items = q.items ++ [x] ∧ q'.first = q.first ∧
      q'.popped = q.popped ∧ q'.opening = q.opening ∧ q'.flushed = q.flushed := by
  unfold push at h
  split at h
  · rename_i hroom
    cases h
    exact ⟨hroom, (List.append_assoc ..).symm, rfl, rfl, rfl, rfl⟩
  · cases h

theorem push_eq_none (h : q.push x = none) : q.items.length = n := by
  unfold push at h
  split at h
  · cases h
  · have hr := q.items_room
    omega

theorem pop_eq_some (h : q.pop = some (x, q')) :
    q.popped < q.kept ∧ q.opening[q.popped]? = some x ∧ q'.popped = q.popped + 1 ∧
      q'.items = q.items ∧ q'.first = q.first ∧ q'.opening = q.opening ∧
      q'.flushed = q.flushed := by
  unfold pop at h
  split at h
  · rename_i hlt
    cases h
    exact ⟨hlt, by rw [List.getElem?_eq_getElem]; rfl, rfl, rfl, rfl, rfl, rfl⟩
  · cases h

theorem pop_eq_none (h : q.pop = none) : q.popped = q.kept := by
  unfold pop at h
  split at h
  · cases h
  · have hp := q.popped_le
    omega

/-- **A rollback leaves the elements before its place.** -/
theorem rollback_items {k : Nat} (h : q.front ≤ k) :
    (q.rollback k).items = q.items.take (k - q.first) := by
  have hk := q.kept_le
  have hlen : (q.opening.take q.kept).length = q.kept := by
    rw [List.length_take, Nat.min_eq_left hk]
  rw [rollback, dif_pos h, items, items, List.take_append, List.take_take, hlen,
    Nat.min_comm (k - q.first)]

theorem rollback_rest {k : Nat} :
    (q.rollback k).first = q.first ∧ (q.rollback k).popped = q.popped ∧
      (q.rollback k).opening = q.opening ∧ (q.rollback k).flushed = q.flushed := by
  unfold rollback
  split <;> exact ⟨rfl, rfl, rfl, rfl⟩

theorem sync_items (q : RegisteredQueue n α) : q.sync.items = q.current := by
  rw [items]
  change q.current.take q.current.length ++ [] = q.current
  rw [List.append_nil, List.take_length]

end RegisteredQueue

/-! ## Runs that answer -/

namespace Answering

variable {ι β σ τ : Type*}

/-- The answers to a list of requests. -/
def answers (f : ι → σ → β × σ) : List ι → σ → List β
  | [], _ => []
  | i :: is, s => (f i s).1 :: answers f is (f i s).2

/-- The state after a list of requests. -/
def after (f : ι → σ → β × σ) (is : List ι) (s : σ) : σ := is.foldl (fun s i => (f i s).2) s

/-- Every request is made in a state that allows it. -/
def Allowed (A : σ → ι → Prop) (f : ι → σ → β × σ) : List ι → σ → Prop
  | [], _ => True
  | i :: is, s => A s i ∧ Allowed A f is (f i s).2

instance decidableAllowed {A : σ → ι → Prop} [∀ s i, Decidable (A s i)] (f : ι → σ → β × σ) :
    (is : List ι) → (s : σ) → Decidable (Allowed A f is s)
  | [], _ => isTrue trivial
  | i :: is, s =>
      haveI := decidableAllowed (A := A) f is (f i s).2
      inferInstanceAs (Decidable (A s i ∧ Allowed A f is (f i s).2))

/-- **A relation that is kept and forces equal answers forces equal runs.** -/
theorem run_eq {f : ι → σ → β × σ} {g : ι → τ → β × τ} {R : σ → τ → Prop} {A : τ → ι → Prop}
    (hstep : ∀ {s t} i, R s t → A t i → (f i s).1 = (g i t).1 ∧ R (f i s).2 (g i t).2) :
    ∀ {is s t}, R s t → Allowed A g is t →
      answers f is s = answers g is t ∧ R (after f is s) (after g is t) := by
  intro is
  induction is with
  | nil => intro s t hR _; exact ⟨rfl, hR⟩
  | cons i is ih =>
      intro s t hR hA
      obtain ⟨hanswer, hkept⟩ := hstep i hR hA.1
      obtain ⟨hrest, hend⟩ := ih hkept hA.2
      exact ⟨by rw [answers, answers, hanswer, hrest], hend⟩

/-- Where a run is allowed, its beginning is. -/
theorem allowed_append {A : σ → ι → Prop} {f : ι → σ → β × σ} {is js : List ι} {s : σ}
    (h : Allowed A f (is ++ js) s) : Allowed A f is s := by
  induction is generalizing s with
  | nil => trivial
  | cons i is ih => exact ⟨h.1, ih h.2⟩

theorem answers_append {f : ι → σ → β × σ} {is js : List ι} {s : σ} :
    answers f (is ++ js) s = answers f is s ++ answers f js (after f is s) := by
  induction is generalizing s with
  | nil => rfl
  | cons i is ih =>
      rw [List.cons_append, answers, ih]
      rfl

end Answering

/-! ## First in, first out -/

namespace RegisteredQueue

open Answering

variable {n : Nat} {α : Type} {q : RegisteredQueue n α}

/-- The element an answer hands over. -/
def Answer.yield : Answer α → List α
  | .taken (some x) => [x]
  | _ => []

/-- The element a request brings in, if it was accepted. -/
def Op.entry : Op α → Answer α → List α
  | .push x, .accepted true | .newPush x, .accepted true => [x]
  | _, _ => []

/-- Everything the pops of a run have taken, in order. -/
def taken (as : List (Answer α)) : List α := as.flatMap Answer.yield

/-- Everything the pushes of a run have brought in, in order. -/
def entered : List (Op α) → List (Answer α) → List α
  | op :: ops, a :: as => op.entry a ++ entered ops as
  | _, _ => []

/-- What the cycle began with and neither a pop nor a rollback has removed. -/
def settled (q : RegisteredQueue n α) : List α := (q.opening.take q.kept).drop q.popped

theorem settled_sublist (q : RegisteredQueue n α) : q.settled.Sublist q.current := by
  have hp := q.popped_le
  have hk := q.kept_le
  have hlen : q.popped ≤ (q.opening.take q.kept).length := by
    rw [List.length_take]
    omega
  rw [settled, current, items, List.drop_append_of_le_length hlen]
  exact List.sublist_append_left ..

/-- **What one request does to the list**: an element goes out at its head or in at its end,
and a rollback or a flush drops some. -/
theorem exec_current (op : Op α) (q : RegisteredQueue n α) :
    ((exec op q).1.yield ++ (exec op q).2.current).Sublist
      (q.current ++ op.entry (exec op q).1) := by
  have hpush (x : α) : ((exec (.push x) q).1.yield ++ (exec (.push x) q).2.current).Sublist
      (q.current ++ (Op.push x).entry (exec (.push x) q).1) := by
    cases hq : q.push x with
    | none =>
        simp only [exec, hq]
        exact List.sublist_append_left ..
    | some q' =>
        obtain ⟨-, hitems, -, hpopped, -, -⟩ := push_eq_some hq
        have hcurrent : q'.current = q.current ++ [x] := by
          rw [current, current, hitems, hpopped, List.drop_append_of_le_length q.popped_le_items]
        simp only [exec, hq, Op.entry, hcurrent]
        exact List.Sublist.refl _
  cases op with
  | push x => exact hpush x
  | newPush x =>
      have hentry : (Op.newPush x).entry = (Op.push x).entry := by
        funext a
        rcases a with (_ | _) | _ | _ <;> rfl
      rw [hentry]
      exact hpush x
  | pop =>
      rw [show Op.pop.entry (exec .pop q).1 = [] from rfl, List.append_nil]
      cases hq : q.pop with
      | none =>
          simp only [exec, hq]
          exact List.Sublist.refl _
      | some r =>
          obtain ⟨x, q'⟩ := r
          obtain ⟨hlt, hx, hpopped, hitems, -, -, -⟩ := pop_eq_some hq
          have hat : q.items[q.popped]? = some x := by
            rw [items, List.getElem?_append_left, List.getElem?_take_of_lt hlt, hx]
            rw [List.length_take]
            have := q.kept_le
            omega
          have hcurrent : q.current = x :: q'.current := by
            rw [current, current, hitems, hpopped]
            exact List.drop_eq_getElem?_toList_append .. |>.trans (by rw [hat]; rfl)
          simp only [exec, hq, hcurrent]
          exact List.Sublist.refl _
  | rollback k =>
      rw [show (Op.rollback k).entry (exec (.rollback k) q).1 = [] from rfl, List.append_nil]
      change (q.rollback k).current.Sublist q.current
      by_cases hk : q.front ≤ k
      · rw [current, current, rollback_items hk, rollback_rest.2.1]
        exact (List.take_sublist ..).drop _
      · rw [rollback, dif_neg hk]
  | flush => exact List.nil_sublist _
  | sync =>
      rw [show (Op.sync : Op α).entry (exec .sync q).1 = [] from rfl, List.append_nil]
      change (q.sync.items.drop 0).Sublist q.current
      rw [List.drop_zero, sync_items]

theorem push_settled {x : α} {q' : RegisteredQueue n α} (h : q.push x = some q') :
    q'.settled = q.settled := by
  unfold push at h
  split at h
  · cases h
    rfl
  · cases h

theorem pop_settled {x : α} {q' : RegisteredQueue n α} (h : q.pop = some (x, q')) :
    q.settled = x :: q'.settled := by
  unfold pop at h
  split at h
  · rename_i hlt
    cases h
    have hat : (q.opening.take q.kept)[q.popped]?
        = some (q.opening.get ⟨q.popped, Nat.lt_of_lt_of_le hlt q.kept_le⟩) := by
      rw [List.getElem?_take_of_lt hlt, List.getElem?_eq_getElem]
      rfl
    rw [settled, List.drop_eq_getElem?_toList_append, hat]
    rfl
  · cases h

/-- Within a cycle nothing settles: what goes out was there at the tick. -/
theorem exec_settled {op : Op α} (hop : op ≠ .sync) (q : RegisteredQueue n α) :
    ((exec op q).1.yield ++ (exec op q).2.settled).Sublist q.settled := by
  have hpush (x : α) :
      ((exec (.push x) q).1.yield ++ (exec (.push x) q).2.settled).Sublist q.settled := by
    cases hq : q.push x with
    | none =>
        simp only [exec, hq]
        exact List.Sublist.refl _
    | some q' =>
        simp only [exec, hq]
        rw [push_settled hq]
        exact List.Sublist.refl _
  cases op with
  | push x => exact hpush x
  | newPush x => exact hpush x
  | pop =>
      cases hq : q.pop with
      | none =>
          simp only [exec, hq]
          exact List.Sublist.refl _
      | some r =>
          simp only [exec, hq, pop_settled hq]
          exact List.Sublist.refl _
  | rollback k =>
      change (q.rollback k).settled.Sublist q.settled
      by_cases hk : q.front ≤ k
      · rw [rollback, dif_pos hk]
        exact (List.take_sublist_take_left (Nat.min_le_left ..)).drop _
      · rw [rollback, dif_neg hk]
  | flush => exact List.nil_sublist _
  | sync => exact absurd rfl hop

/-- **A run neither invents, repeats nor reorders.** -/
theorem run_current (ops : List (Op α)) (q : RegisteredQueue n α) :
    (taken (answers exec ops q) ++ (after exec ops q).current).Sublist
      (q.current ++ entered ops (answers exec ops q)) := by
  induction ops generalizing q with
  | nil => exact List.sublist_append_left ..
  | cons op ops ih =>
      have hstep := exec_current op q
      have hrest := ih (exec op q).2
      have hmid := hstep.append_right (entered ops (answers exec ops (exec op q).2))
      rw [List.append_assoc, List.append_assoc] at hmid
      rw [answers, entered, taken, List.flatMap_cons, List.append_assoc]
      exact (hrest.append_left _).trans hmid

/-- What the pops of one cycle take had settled before it. -/
theorem run_settled {ops : List (Op α)} (hops : .sync ∉ ops) (q : RegisteredQueue n α) :
    (taken (answers exec ops q)).Sublist q.settled := by
  induction ops generalizing q with
  | nil => exact List.nil_sublist _
  | cons op ops ih =>
      rw [List.mem_cons, not_or] at hops
      have hstep := exec_settled (Ne.symm hops.1) q
      exact ((ih hops.2 (exec op q).2).append_left _).trans hstep

/-- **Pops take, in order and once each, only elements pushed before their cycle.** -/
theorem taken_sublist (early : List (Op α)) {cycle : List (Op α)} (hcycle : .sync ∉ cycle) :
    (taken (answers exec (early ++ cycle) (empty n α))).Sublist
      (entered early (answers exec early (empty n α))) := by
  have hcycle := run_settled hcycle (after exec early (empty n α))
  have hearly := run_current early (empty n α)
  rw [answers_append, taken, List.flatMap_append]
  exact ((hcycle.trans (settled_sublist _)).append_left _).trans hearly

end RegisteredQueue
