import Mathlib.Data.Option.Basic

/-!
# A delay line that can be cancelled

What enters in one cycle moves on by one place in each cycle, unless it is
cancelled. `survivor k d` is what entered in cycle `k` and has not been cancelled
in the `d` cycles after it. It depends on nothing else that enters, and so a
machine that realizes a delay line keeps apart what is under way in it, however
few places it really has.
-/

namespace DelayLine

variable {α : Type} {enter : Nat → Option α} {cancels : Nat → α → Bool}

/-- What entered in cycle `k`, if it is still there `d` cycles later. -/
def survivor (enter : Nat → Option α) (cancels : Nat → α → Bool) (k : Nat) : Nat → Option α
  | 0 => enter k
  | d + 1 => (survivor enter cancels k d).filter fun a => !cancels (k + 1 + d) a

theorem survivor_succ {k d : Nat} {a : α} : survivor enter cancels k (d + 1) = some a ↔
    survivor enter cancels k d = some a ∧ cancels (k + 1 + d) a = false := by
  rw [survivor, Option.filter_eq_some_iff, Bool.not_eq_true']

/-- It is there when no cycle has cancelled it. -/
theorem survivor_eq_some {k d : Nat} {a : α} : survivor enter cancels k d = some a ↔
    enter k = some a ∧ ∀ j, k < j → j ≤ k + d → cancels j a = false := by
  induction d with
  | zero =>
      rw [survivor, iff_self_and]
      intro _ j hlo hhi
      omega
  | succ d ih =>
      rw [survivor_succ, ih]
      constructor
      · rintro ⟨⟨henter, hall⟩, hlast⟩
        refine ⟨henter, fun j hlo hhi => ?_⟩
        by_cases hj : j = k + 1 + d
        · rw [hj]
          exact hlast
        · exact hall j hlo (by omega)
      · rintro ⟨henter, hall⟩
        exact ⟨⟨henter, fun j hlo hhi => hall j hlo (by omega)⟩,
          hall (k + 1 + d) (by omega) (by omega)⟩

/-- **A machine that works like a delay line**: `holds n i a` says that before cycle `n` it has `a`
in a place that `a` has reached `i` cycles after it could first be seen. -/
structure Realizes (enter : Nat → Option α) (cancels : Nat → α → Bool) (depth : Nat)
    (holds : Nat → Nat → α → Prop) : Prop where
  start : ∀ i a, ¬ holds 0 i a
  enters : ∀ n a, holds (n + 1) 0 a ↔ enter n = some a
  moves : ∀ n i a, i < depth →
    (holds (n + 1) (i + 1) a ↔ holds n i a ∧ cancels n a = false)

/-- **What is where** follows from what entered and what was cancelled. -/
theorem Realizes.holds_iff {depth : Nat} {holds : Nat → Nat → α → Prop}
    (h : Realizes enter cancels depth holds) {i : Nat} (hi : i ≤ depth) {n : Nat} {a : α} :
    holds n i a ↔ ∃ k, n = k + 1 + i ∧ survivor enter cancels k i = some a := by
  induction i generalizing n with
  | zero =>
      cases n with
      | zero =>
          refine iff_of_false (h.start 0 a) ?_
          rintro ⟨k, hk, -⟩
          omega
      | succ n =>
          rw [h.enters]
          constructor
          · exact fun henter => ⟨n, rfl, henter⟩
          · rintro ⟨k, hk, henter⟩
            obtain rfl : k = n := by omega
            exact henter
  | succ i ih =>
      cases n with
      | zero =>
          refine iff_of_false (h.start (i + 1) a) ?_
          rintro ⟨k, hk, -⟩
          omega
      | succ n =>
          rw [h.moves n i a (by omega), ih (by omega)]
          constructor
          · rintro ⟨⟨k, rfl, hsurvives⟩, hkept⟩
            exact ⟨k, by omega, survivor_succ.mpr ⟨hsurvives, hkept⟩⟩
          · rintro ⟨k, hk, hsurvives⟩
            obtain ⟨hbefore, hkept⟩ := survivor_succ.mp hsurvives
            obtain rfl : n = k + 1 + i := by omega
            exact ⟨⟨k, rfl, hbefore⟩, hkept⟩

end DelayLine
