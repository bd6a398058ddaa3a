import Mathlib.Algebra.GroupWithZero.Nat
import Mathlib.Data.List.Basic

/-!
# A bounded stack of counted entries

A stack of values that holds a value pushed again and again as one entry with a
repeat count. It has room for `cap` entries, and a count goes up to `most`. A
push that needs a new entry drops the oldest one when there is no room. A pop of
an empty stack answers with the last value popped.

`values` is the stack without the counts: one element for every push that is
neither popped nor dropped, the most recent first.
-/

/-- The bounds are part of the stack. -/
structure CountedStack (α : Type) (cap most : Nat) where
  entries : List (α × Nat)
  last : α
  bounded : entries.length ≤ cap
  counted : ∀ e ∈ entries, 0 < e.2 ∧ e.2 ≤ most

namespace CountedStack

variable {α : Type} {cap most : Nat}

def empty (a : α) : CountedStack α cap most := ⟨[], a, Nat.zero_le _, fun _ h => by cases h⟩

/-- The value is the one on top, and its count can go up. -/
def Repeats (s : CountedStack α cap most) (a : α) : Prop :=
  match s.entries with
  | [] => False
  | (x, c) :: _ => x = a ∧ c < most

theorem repeats_iff {s : CountedStack α cap most} {a : α} :
    s.Repeats a ↔ ∃ c rest, s.entries = (a, c) :: rest ∧ c < most := by
  unfold Repeats
  split
  · rename_i hnil
    simp [hnil]
  · rename_i x c rest hcons
    constructor
    · rintro ⟨rfl, hc⟩
      exact ⟨c, rest, hcons, hc⟩
    · rintro ⟨c', rest', hcons', hc⟩
      rw [hcons] at hcons'
      cases hcons'
      exact ⟨rfl, hc⟩

/-- The value popped, and the stack. -/
def pop (s : CountedStack α cap most) : α × CountedStack α cap most :=
  match h : s.entries with
  | [] => (s.last, s)
  | (x, c) :: rest =>
      have hbound : rest.length + 1 ≤ cap := by
        have := s.bounded
        rwa [h, List.length_cons] at this
      have hrest (e : α × Nat) (he : e ∈ rest) : 0 < e.2 ∧ e.2 ≤ most :=
        s.counted e (h ▸ List.mem_cons_of_mem _ he)
      if hc : c = 1 then (x, ⟨rest, x, Nat.le_of_succ_le hbound, hrest⟩)
      else
        have hcount := s.counted (x, c) (h ▸ List.mem_cons_self)
        (x, ⟨(x, c - 1) :: rest, x, hbound, fun e he => by
          rcases List.mem_cons.mp he with rfl | he
          · exact ⟨by have := hcount.1; simp only at this ⊢; omega,
              Nat.le_trans (Nat.sub_le _ _) hcount.2⟩
          · exact hrest e he⟩)

theorem pop_empty {s : CountedStack α cap most} (h : s.entries = []) : s.pop = (s.last, s) := by
  unfold pop
  split
  · rfl
  · rename_i hcons
    rw [h] at hcons
    cases hcons

theorem pop_cons {s : CountedStack α cap most} {x : α} {c : Nat} {rest : List (α × Nat)}
    (h : s.entries = (x, c) :: rest) :
    s.pop.1 = x ∧ s.pop.2.last = x ∧
      s.pop.2.entries = if c = 1 then rest else (x, c - 1) :: rest := by
  unfold pop
  split
  · rename_i hnil
    rw [h] at hnil
    cases hnil
  · rename_i y d rest' hcons
    rw [h] at hcons
    cases hcons
    split <;> simp

/-! ## Pushing -/

variable [DecidableEq α]

instance (s : CountedStack α cap most) (a : α) : Decidable (s.Repeats a) := by
  unfold Repeats
  split <;> infer_instance

/-- The entries after a push. -/
def pushed (s : CountedStack α cap most) (a : α) : List (α × Nat) :=
  if s.Repeats a then
    match s.entries with
    | [] => []
    | (x, c) :: rest => (x, c + 1) :: rest
  else if s.entries.length = cap then (a, 1) :: s.entries.dropLast
  else (a, 1) :: s.entries

theorem pushed_repeats {s : CountedStack α cap most} {a : α} {c : Nat} {rest : List (α × Nat)}
    (h : s.entries = (a, c) :: rest) (hc : c < most) : s.pushed a = (a, c + 1) :: rest := by
  unfold pushed
  rw [if_pos (repeats_iff.mpr ⟨c, rest, h, hc⟩), h]

theorem pushed_full {s : CountedStack α cap most} {a : α} (h : ¬ s.Repeats a)
    (hfull : s.entries.length = cap) : s.pushed a = (a, 1) :: s.entries.dropLast := by
  unfold pushed
  rw [if_neg h, if_pos hfull]

theorem pushed_room {s : CountedStack α cap most} {a : α} (h : ¬ s.Repeats a)
    (hroom : s.entries.length ≠ cap) : s.pushed a = (a, 1) :: s.entries := by
  unfold pushed
  rw [if_neg h, if_neg hroom]

theorem pushed_bounded [NeZero cap] (s : CountedStack α cap most) (a : α) :
    (s.pushed a).length ≤ cap := by
  have hbound := s.bounded
  have hcap := Nat.pos_of_ne_zero (NeZero.ne cap)
  by_cases hrepeats : s.Repeats a
  · obtain ⟨c, rest, hentries, hc⟩ := repeats_iff.mp hrepeats
    rw [pushed_repeats hentries hc]
    rw [hentries] at hbound
    exact hbound
  · by_cases hfull : s.entries.length = cap
    · rw [pushed_full hrepeats hfull, List.length_cons, List.length_dropLast]
      omega
    · rw [pushed_room hrepeats hfull, List.length_cons]
      omega

theorem pushed_counted [NeZero most] (s : CountedStack α cap most) (a : α) :
    ∀ e ∈ s.pushed a, 0 < e.2 ∧ e.2 ≤ most := by
  have hmost := Nat.pos_of_ne_zero (NeZero.ne most)
  have hcounted := s.counted
  have hnew (c : Nat) (hc : 0 < c ∧ c ≤ most) (l : List (α × Nat))
      (hl : ∀ e ∈ l, 0 < e.2 ∧ e.2 ≤ most) : ∀ e ∈ (a, c) :: l, 0 < e.2 ∧ e.2 ≤ most := by
    intro e he
    rcases List.mem_cons.mp he with rfl | he
    · exact hc
    · exact hl e he
  by_cases hrepeats : s.Repeats a
  · obtain ⟨c, rest, hentries, hc⟩ := repeats_iff.mp hrepeats
    rw [pushed_repeats hentries hc]
    exact hnew _ ⟨Nat.succ_pos c, hc⟩ _ fun e he =>
      hcounted e (hentries ▸ List.mem_cons_of_mem _ he)
  · by_cases hfull : s.entries.length = cap
    · rw [pushed_full hrepeats hfull]
      exact hnew _ ⟨Nat.one_pos, hmost⟩ _ fun e he => hcounted e (List.dropLast_subset _ he)
    · rw [pushed_room hrepeats hfull]
      exact hnew _ ⟨Nat.one_pos, hmost⟩ _ hcounted

def push [NeZero cap] [NeZero most] (s : CountedStack α cap most) (a : α) :
    CountedStack α cap most :=
  ⟨s.pushed a, s.last, s.pushed_bounded a, s.pushed_counted a⟩

end CountedStack
