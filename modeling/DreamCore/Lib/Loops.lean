import Mathlib.Data.List.Basic

/-!
# Loops that may fail

A loop whose body checks something stops at the first check that fails. What its body
keeps, the loop keeps when it comes to its end; a body that never fails makes a loop
that never fails; and a body that fails at some elements whatever has come before
makes a loop that fails when one of them is there.
-/

namespace Loops

variable {α β : Type} {f : β → α → Option β} {l : List α} {b b' : β}

/-- **The loop rule.** -/
theorem foldlM_invariant {P : β → Prop} (h : l.foldlM f b = some b') (hb : P b)
    (hstep : ∀ a ∈ l, ∀ b b', P b → f b a = some b' → P b') : P b' := by
  induction l generalizing b with
  | nil =>
    obtain rfl := Option.some.inj h
    exact hb
  | cons a l ih =>
    rw [List.foldlM_cons] at h
    obtain ⟨mid, hmid, h⟩ := Option.bind_eq_some_iff.mp h
    exact ih h (hstep a (List.mem_cons_self ..) b mid hb hmid)
      fun a ha => hstep a (List.mem_cons_of_mem _ ha)

/-- The last pass of a loop over the first numbers. -/
theorem foldlM_range_succ {f : β → ℕ → Option β} {n : ℕ} :
    (List.range (n + 1)).foldlM f b = ((List.range n).foldlM f b).bind fun mid => f mid n := by
  rw [List.range_succ, List.foldlM_append]
  refine congrArg _ (funext fun mid => ?_)
  rw [List.foldlM_cons]
  exact bind_pure _

/-- A loop whose body never fails keeps what its body keeps. -/
theorem foldlM_keeps (f : β → α → Option β) (P : β → Prop) (l : List α)
    (h : ∀ b, P b → ∀ a ∈ l, ∃ b', f b a = some b' ∧ P b') {b : β} (hb : P b) :
    ∃ b', l.foldlM f b = some b' ∧ P b' := by
  induction l generalizing b with
  | nil => exact ⟨b, rfl, hb⟩
  | cons a l ih =>
      obtain ⟨b', hstep, hb'⟩ := h b hb a (List.mem_cons_self ..)
      rw [List.foldlM_cons, hstep]
      exact ih (fun b hb a ha => h b hb a (List.mem_cons_of_mem _ ha)) hb'

/-- A walk that gives up at some entries and folds over the others. -/
theorem foldlM_blocked {blocks : α → Bool} {g : β → α → β}
    (h : ∀ e ∈ l, ∀ acc, f acc e = if blocks e then none else some (g acc e))
    (acc : β) : l.foldlM f acc = if l.any blocks then none else some (l.foldl g acc) := by
  induction l generalizing acc with
  | nil => rfl
  | cons e l ih =>
    rw [List.foldlM_cons, h e (List.mem_cons_self ..), List.any_cons, List.foldl_cons]
    by_cases hb : blocks e = true
    · rw [if_pos hb, hb]
      rfl
    · have hb' : blocks e = false := by simpa using hb
      rw [if_neg hb, hb', Bool.false_or]
      exact ih (fun e he => h e (List.mem_cons_of_mem _ he)) _

end Loops
