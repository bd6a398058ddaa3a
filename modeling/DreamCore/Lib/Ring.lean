import Mathlib.Logic.Function.Basic
import Mathlib.Data.List.Basic

/-!
# Ring positions

A ring of `n` slots is driven by positions that carry, next to the slot number,
one *stage* bit that flips every time the position wraps. Hardware compares two
such pairs and never sees how often either one has gone round.

The way to reason about them is to undo the folding: a position is the image
`fold n k` of an unbounded counter `k`. Everything the hardware decides — empty,
full, who is older, how many slots lie between — is a statement about counters,
valid as long as the two counters are no further apart than the ring is long.
-/

namespace Ring

/-- A position in a ring: the slot, and the bit that flips on every wrap. -/
structure Ptr where
  id : Nat
  stage : Bool
deriving DecidableEq, Repr, Inhabited

namespace Ptr

/-- The following position in a ring of `n` slots. -/
def next (n : Nat) (p : Ptr) : Ptr :=
  if p.id ≥ n - 1 then ⟨0, !p.stage⟩ else ⟨p.id + 1, p.stage⟩

/-- Same slot, opposite stage: the ring between the two positions is full. -/
def full (p q : Ptr) : Bool := p.id == q.id && p.stage != q.stage

/-- `p` lies strictly after `q`, judged from the two pairs alone. -/
def younger (p q : Ptr) : Bool :=
  if p.stage == q.stage then decide (q.id < p.id) else decide (p.id < q.id)

/-- How many slots lie between `p` and `q`, judged from the two pairs alone. -/
def gap (n : Nat) (p q : Ptr) : Nat :=
  if p.full q then n else (q.id + n - p.id) % n

/-- The position an unbounded counter is folded to. -/
def fold (n k : Nat) : Ptr := ⟨k % n, k / n % 2 == 1⟩

variable {n a b k : Nat}

@[simp] theorem fold_id : (fold n k).id = k % n := rfl

theorem fold_zero (n : Nat) : fold n 0 = ⟨0, false⟩ := by simp [fold]

/-- One turn of the ring. -/
theorem fold_self (hn : 0 < n) : fold n n = ⟨0, true⟩ := by
  rw [fold, Nat.mod_self, Nat.div_self hn]
  rfl

/-- A quotient and a remainder determine division. -/
theorem div_mod_of_eq {q r : Nat} (hr : r < n) (hk : k = n * q + r) :
    k / n = q ∧ k % n = r :=
  (Nat.div_mod_unique (by omega)).mpr ⟨by omega, hr⟩

/-- **Advancing a position advances its counter.** -/
theorem next_fold (hn : 0 < n) (k : Nat) : (fold n k).next n = fold n (k + 1) := by
  have hk := Nat.div_add_mod k n
  have hr := Nat.mod_lt k hn
  by_cases hw : k % n ≥ n - 1
  · obtain ⟨hq, hm⟩ := div_mod_of_eq (k := k + 1) (n := n) (q := k / n + 1) (r := 0) hn
      (by rw [Nat.mul_add]; omega)
    have hnext : (fold n k).next n = ⟨0, !(k / n % 2 == 1)⟩ := if_pos hw
    rw [hnext, fold, hq, hm]
    rcases Nat.mod_two_eq_zero_or_one (k / n) with h | h <;> simp [h, Nat.add_mod]
  · obtain ⟨hq, hm⟩ := div_mod_of_eq (k := k + 1) (n := n) (q := k / n) (r := k % n + 1)
      (by omega) (by omega)
    have hnext : (fold n k).next n = ⟨k % n + 1, k / n % 2 == 1⟩ := if_neg hw
    rw [hnext, fold, hq, hm]

/-- The position before one that is not the first, as a FIFO computes it from its write
pointer. -/
theorem prev_fold (hn : 0 < n) (k : Nat) :
    (⟨((fold n (k + 1)).id + n - 1) % n,
      if (fold n (k + 1)).id == 0 then !(fold n (k + 1)).stage else (fold n (k + 1)).stage⟩ : Ptr)
      = fold n k := by
  have hr := Nat.mod_lt k hn
  rw [← next_fold hn, next, fold_id]
  by_cases hw : k % n ≥ n - 1
  · have hlast : k % n = n - 1 := by omega
    rw [if_pos hw]
    simp [fold, hlast, Nat.mod_eq_of_lt (show n - 1 < n by omega)]
  · rw [if_neg hw]
    simp [fold]

/-- The pair arithmetic some callers write instead of `next`. -/
theorem succ_fold (hn : 0 < n) (k : Nat) :
    (⟨((fold n k).id + 1) % n, decide ((fold n k).id + 1 ≥ n) != (fold n k).stage⟩ : Ptr)
      = fold n (k + 1) := by
  rw [← next_fold hn]
  have hr := Nat.mod_lt k hn
  by_cases hw : k % n ≥ n - 1
  · have h1 : k % n + 1 = n := by omega
    simp [next, fold, h1, hw]
  · have h1 : (k % n + 1) % n = k % n + 1 := Nat.mod_eq_of_lt (by omega)
    have h2 : ¬ n ≤ k % n + 1 := by omega
    simp [next, fold, hw, h1, h2]

/-- The lap of a counter no further than one ring ahead. -/
theorem div_window (hn : 0 < n) (hab : a ≤ b) (hb : b ≤ a + n) :
    (b / n = a / n ∧ b % n = a % n + (b - a)) ∨
    (b / n = a / n + 1 ∧ b % n + n = a % n + (b - a)) := by
  have ha := Nat.div_add_mod a n
  have hr := Nat.mod_lt a hn
  by_cases hw : a % n + (b - a) < n
  · left
    exact div_mod_of_eq hw (by omega)
  · right
    obtain ⟨hq, hm⟩ := div_mod_of_eq (k := b) (n := n) (q := a / n + 1)
      (r := a % n + (b - a) - n) (by omega) (by rw [Nat.mul_add]; omega)
    exact ⟨hq, by omega⟩

/-- Consecutive laps have opposite stage bits. -/
theorem stage_succ (q : Nat) : ((q + 1) % 2 == 1) = !(q % 2 == 1) := by
  rcases Nat.mod_two_eq_zero_or_one q with h | h <;> simp [h, Nat.add_mod]

/-- Two positions at most one ring apart are equal only when the counters are. -/
theorem fold_inj (hn : 0 < n) (hab : a ≤ b) (hb : b ≤ a + n)
    (h : fold n a = fold n b) : a = b := by
  have hid : a % n = b % n := congrArg Ptr.id h
  have hst : (a / n % 2 == 1) = (b / n % 2 == 1) := congrArg Ptr.stage h
  rcases div_window hn hab hb with ⟨_, hm⟩ | ⟨hq, hm⟩
  · omega
  · rw [hq, stage_succ] at hst
    cases h' : (a / n % 2 == 1) <;> simp [h'] at hst

theorem fold_eq_iff (hn : 0 < n) (hab : a ≤ b) (hb : b ≤ a + n) :
    fold n a = fold n b ↔ a = b :=
  ⟨fold_inj hn hab hb, fun h => by rw [h]⟩

/-- **Full means a whole ring apart.** -/
theorem full_fold (hn : 0 < n) (hab : a ≤ b) (hb : b ≤ a + n) :
    (fold n a).full (fold n b) = true ↔ b = a + n := by
  have hr := Nat.mod_lt b hn
  rcases div_window hn hab hb with ⟨hq, hm⟩ | ⟨hq, hm⟩
  · simp only [full, fold, hq]
    simp; omega
  · simp only [full, fold, hq, stage_succ]
    simp; omega

/-- The mirrored test gives the same answer. -/
theorem full_comm (p q : Ptr) : p.full q = q.full p := by
  cases p; cases q
  simp only [full, bne_comm]
  congr 1
  exact Bool.beq_comm ..

/-- **Younger means a larger counter.** -/
theorem younger_fold (hn : 0 < n) (hab : a < b + n) (hba : b < a + n) :
    (fold n a).younger (fold n b) = true ↔ b < a := by
  have ha := Nat.mod_lt a hn
  have hb := Nat.mod_lt b hn
  rcases Nat.le_total a b with h | h
  · rcases div_window hn h (by omega) with ⟨hq, hm⟩ | ⟨hq, hm⟩
    · simp only [younger, fold, hq]
      simp; omega
    · have hne : ((a / n % 2 == 1) == !(a / n % 2 == 1)) = false := by
        cases (a / n % 2 == 1) <;> rfl
      simp only [younger, fold, hq, stage_succ, hne]
      simp; omega
  · rcases div_window hn h (by omega) with ⟨hq, hm⟩ | ⟨hq, hm⟩
    · simp only [younger, fold, hq]
      simp; omega
    · have hne : ((!(b / n % 2 == 1)) == (b / n % 2 == 1)) = false := by
        cases (b / n % 2 == 1) <;> rfl
      simp only [younger, fold, hq, stage_succ, hne]
      simp; omega

theorem younger_irrefl (p : Ptr) : p.younger p = false := by simp [Ptr.younger]

/-- Two positions are never younger than one another. -/
theorem younger_asymm {p q : Ptr} (h : p.younger q = true) : q.younger p = false := by
  simp only [Ptr.younger] at h ⊢
  by_cases hs : p.stage = q.stage
  · simp only [hs, beq_self_eq_true, if_true, decide_eq_true_eq, decide_eq_false_iff_not] at h ⊢
    omega
  · have h₁ : (p.stage == q.stage) = false := by simpa using hs
    have h₂ : (q.stage == p.stage) = false := by simpa using Ne.symm hs
    simp only [h₁, h₂, Bool.false_eq_true, if_false, decide_eq_true_eq,
      decide_eq_false_iff_not] at h ⊢
    omega

/-- **The gap between two positions is the difference of their counters.** -/
theorem gap_fold (hn : 0 < n) (hab : a ≤ b) (hb : b ≤ a + n) :
    gap n (fold n a) (fold n b) = b - a := by
  have hr := Nat.mod_lt a hn
  by_cases hf : b = a + n
  · have : (fold n a).full (fold n b) = true := (full_fold hn hab hb).mpr hf
    simp only [gap, this, if_true]
    omega
  · have : (fold n a).full (fold n b) = false := by
      rw [Bool.eq_false_iff]
      exact fun h => hf ((full_fold hn hab hb).mp h)
    simp only [gap, this, fold_id]
    rcases div_window hn hab hb with ⟨_, hm⟩ | ⟨_, hm⟩
    · rw [hm, show a % n + (b - a) + n - a % n = (b - a) + n by omega]
      rw [if_neg (by simp), Nat.add_mod_right]
      exact Nat.mod_eq_of_lt (by omega)
    · rw [if_neg (by simp), show b % n + n - a % n = b - a by omega]
      exact Nat.mod_eq_of_lt (by omega)

end Ptr

/-! ## The slots between two counters -/

variable {α : Type*} {n a b c k : Nat}

/-- What the slots from counter `a` up to counter `b` hold, oldest first. -/
def slots (n : Nat) (buf : Nat → α) (a b : Nat) : List α :=
  (List.range' a (b - a)).map fun k => buf (k % n)

@[simp] theorem slots_length (buf : Nat → α) : (slots n buf a b).length = b - a := by
  simp [slots]

@[simp] theorem slots_self (buf : Nat → α) : slots n buf a a = [] := by simp [slots]

theorem slots_getElem? (buf : Nat → α) (h : k < b - a) :
    (slots n buf a b)[k]? = some (buf ((a + k) % n)) := by
  simp [slots, h]

/-- Splitting the window at a counter inside it. -/
theorem slots_append (buf : Nat → α) (hab : a ≤ b) (hbc : b ≤ c) :
    slots n buf a b ++ slots n buf b c = slots n buf a c := by
  have hb : b = a + (b - a) := by omega
  have hc : c - a = (b - a) + (c - b) := by omega
  rw [slots, slots, slots, ← List.map_append, hc, ← List.range'_append_1, ← hb]

/-- Widening the window by one slot at its young end. -/
theorem slots_succ_right (buf : Nat → α) (h : a ≤ b) :
    slots n buf a (b + 1) = slots n buf a b ++ [buf (b % n)] := by
  rw [← slots_append buf h (Nat.le_succ b)]
  simp [slots, List.range'_one]

/-- The oldest slot of a non-empty window. -/
theorem slots_succ_left (buf : Nat → α) (h : a < b) :
    slots n buf a b = buf (a % n) :: slots n buf (a + 1) b := by
  rw [← slots_append buf (Nat.le_succ a) h]
  simp [slots, List.range'_one]

theorem slots_drop (buf : Nat → α) (i : Nat) :
    (slots n buf a b).drop i = slots n buf (a + i) b := by
  rw [slots, slots, ← List.map_drop, List.drop_range', Nat.sub_add_eq, Nat.mul_one]

theorem slots_take (buf : Nat → α) {i : Nat} (hi : a + i ≤ b) :
    (slots n buf a b).take i = slots n buf a (a + i) := by
  rw [slots, slots, ← List.map_take, List.take_range'_of_length_ge (by omega),
    Nat.add_sub_cancel_left]

theorem mem_slots {buf : Nat → α} {x : α} :
    x ∈ slots n buf a b ↔ ∃ k, a ≤ k ∧ k < b ∧ x = buf (k % n) := by
  simp only [slots, List.mem_map, List.mem_range'_1]
  constructor
  · rintro ⟨k, hk, rfl⟩
    exact ⟨k, hk.1, by omega, rfl⟩
  · rintro ⟨k, h1, h2, rfl⟩
    exact ⟨k, ⟨h1, by omega⟩, rfl⟩

theorem slots_congr {buf buf' : Nat → α}
    (h : ∀ k, a ≤ k → k < b → buf (k % n) = buf' (k % n)) :
    slots n buf a b = slots n buf' a b := by
  refine List.map_congr_left fun k hk => ?_
  rw [List.mem_range'_1] at hk
  exact h k hk.1 (by omega)

/-- Counters less than a ring apart live in different slots. -/
theorem mod_ne_of_window (h1 : a < b) (h2 : b < a + n) : a % n ≠ b % n := by
  intro h
  rcases Ptr.div_window (n := n) (by omega) (Nat.le_of_lt h1) (Nat.le_of_lt h2) with
    ⟨_, hm⟩ | ⟨_, hm⟩ <;> omega

/-- Writing the slot of a counter outside the window leaves the window alone. -/
theorem slots_update (buf : Nat → α) (x : α) (hb : b ≤ k) (hk : k < a + n) :
    slots n (Function.update buf (k % n) x) a b = slots n buf a b := by
  refine slots_congr fun j h1 h2 => ?_
  exact Function.update_of_ne (mod_ne_of_window (by omega) (by omega)) ..

end Ring
