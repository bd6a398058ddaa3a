import Mathlib.Data.List.Basic

/-!
# A window of speculative steps

A speculative machine holds a base state, which is certain, and a list of steps
it has already taken on top of it but may still take back, oldest first. Only
four things ever happen to such a window: a step is added at the young end, the
oldest step becomes certain and moves the base, the window is cut after some
step, or it is dropped as a whole.

`tip` is the state at the young end. `EachAt P` says that every step satisfies
`P` at the state it was taken from; it is stable under all four operations, which
is what makes it the right form for an invariant about in-flight work.
-/

namespace Window

variable {ι σ : Type*} (advance : ι → σ → σ)

/-- The state after the steps of a window, taken from `base`. -/
def tip (base : σ) (steps : List ι) : σ := steps.foldl (fun s i => advance i s) base

/-- Every step of the window satisfies `P` at the state it was taken from. -/
def EachAt (P : σ → ι → Prop) : σ → List ι → Prop
  | _, [] => True
  | base, i :: steps => P base i ∧ EachAt P (advance i base) steps

variable {advance}

@[simp] theorem tip_nil (base : σ) : tip advance base [] = base := rfl

@[simp] theorem tip_cons (base : σ) (i : ι) (steps : List ι) :
    tip advance base (i :: steps) = tip advance (advance i base) steps := rfl

theorem tip_append (base : σ) (l₁ l₂ : List ι) :
    tip advance base (l₁ ++ l₂) = tip advance (tip advance base l₁) l₂ := by
  simp [tip]

theorem tip_snoc (base : σ) (steps : List ι) (i : ι) :
    tip advance base (steps ++ [i]) = advance i (tip advance base steps) := by
  simp [tip]

variable {P Q : σ → ι → Prop}

theorem eachAt_append {base : σ} {l₁ l₂ : List ι} :
    EachAt advance P base (l₁ ++ l₂) ↔
      EachAt advance P base l₁ ∧ EachAt advance P (tip advance base l₁) l₂ := by
  induction l₁ generalizing base with
  | nil => simp [EachAt]
  | cons i l₁ ih => simp only [List.cons_append, EachAt, ih, tip_cons, and_assoc]

/-- **Adding a step at the young end.** -/
theorem eachAt_snoc {base : σ} {steps : List ι} {i : ι} :
    EachAt advance P base (steps ++ [i]) ↔
      EachAt advance P base steps ∧ P (tip advance base steps) i := by
  rw [eachAt_append]
  simp [EachAt]

/-- **Reading off one step**, wherever it stands in the window. -/
theorem EachAt.at {base : σ} {l₁ l₂ : List ι} {i : ι}
    (h : EachAt advance P base (l₁ ++ i :: l₂)) : P (tip advance base l₁) i :=
  (eachAt_append.mp h).2.1

/-- Weakening, with the position of the step at hand. -/
theorem EachAt.imp {base : σ} {steps : List ι} (h : EachAt advance P base steps)
    (hPQ : ∀ l₁ i l₂, steps = l₁ ++ i :: l₂ → P (tip advance base l₁) i →
      Q (tip advance base l₁) i) :
    EachAt advance Q base steps := by
  induction steps generalizing base with
  | nil => trivial
  | cons i steps ih =>
    refine ⟨hPQ [] i steps rfl h.1, ih h.2 fun l₁ j l₂ hs => ?_⟩
    subst hs
    exact hPQ (i :: l₁) j l₂ rfl

/-- A quantity that no step decreases is at least as large at the tip as at the base. -/
theorem le_tip {f : σ → Nat} (hf : ∀ i s, f s ≤ f (advance i s)) (base : σ) (steps : List ι) :
    f base ≤ f (tip advance base steps) := by
  induction steps generalizing base with
  | nil => exact Nat.le_refl _
  | cons i steps ih => exact Nat.le_trans (hf i base) (ih _)

/-- The same between two points of the window. -/
theorem tip_le_tip {f : σ → Nat} (hf : ∀ i s, f s ≤ f (advance i s)) (base : σ)
    (l₁ l₂ : List ι) : f (tip advance base l₁) ≤ f (tip advance base (l₁ ++ l₂)) := by
  rw [tip_append]
  exact le_tip hf _ _

end Window
