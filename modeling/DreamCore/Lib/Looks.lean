import Mathlib.Logic.Basic

/-!
# Checking what one reads

A program that takes a file apart reads fields at offsets the file itself gives,
checks them, and stops with an error at the first check that fails. It is safe
when it never looks behind the end, and that depends on where it stops: a field
that no program gets to may lie anywhere.

The looks of a run are listed as if it never stopped, each with the place where
the field ends and whether the run goes on after it. `Inside` says that all looks
up to the first one that fails lie in a file of `n` bytes, and `Performs` that a
program makes these looks and no others.
-/

namespace Looks

/-- What comes of a run: it has looked outside the file, it has stopped with an error, or it has
gone through. -/
inductive Outcome (ε α : Type) where
  | outside
  | rejected (e : ε)
  | done (a : α)

variable {ε α β : Type}

def Outcome.bind (x : Outcome ε α) (f : α → Outcome ε β) : Outcome ε β :=
  match x with
  | .outside => .outside
  | .rejected e => .rejected e
  | .done a => f a

instance : Monad (Outcome ε) where
  pure := .done
  bind := .bind

@[simp] theorem done_bind (a : α) (f : α → Outcome ε β) : (Outcome.done a >>= f) = f a := rfl

@[simp] theorem pure_eq (a : α) : (pure a : Outcome ε α) = .done a := rfl

/-- One look: where the field ends, and whether the run goes on. -/
structure Look where
  stop : Nat
  ok : Bool

/-- All looks lie inside, up to the first one that fails. -/
def Inside (n : Nat) : List Look → Prop
  | [] => True
  | l :: ls => l.stop ≤ n ∧ (l.ok = true → Inside n ls)

/-- No look fails. -/
def Passes (ls : List Look) : Prop := ∀ l ∈ ls, l.ok = true

@[simp] theorem passes_nil : Passes [] := fun _ h => by cases h

@[simp] theorem passes_cons {l : Look} {ls : List Look} :
    Passes (l :: ls) ↔ l.ok = true ∧ Passes ls := List.forall_mem_cons

theorem passes_append {l₁ l₂ : List Look} : Passes (l₁ ++ l₂) ↔ Passes l₁ ∧ Passes l₂ :=
  List.forall_mem_append

/-- The second part matters only where the first one goes through. -/
theorem inside_append {n : Nat} {l₁ l₂ : List Look} :
    Inside n (l₁ ++ l₂) ↔ Inside n l₁ ∧ (Passes l₁ → Inside n l₂) := by
  induction l₁ with
  | nil => simp [Inside]
  | cons l l₁ ih =>
      rw [List.cons_append, Inside, Inside, ih, passes_cons]
      constructor
      · rintro ⟨hstop, hrest⟩
        exact ⟨⟨hstop, fun hok => (hrest hok).1⟩, fun hpass => (hrest hpass.1).2 hpass.2⟩
      · rintro ⟨⟨hstop, hrest⟩, hsecond⟩
        exact ⟨hstop, fun hok => ⟨hrest hok, fun hpass => hsecond ⟨hok, hpass⟩⟩⟩

/-- Looks that are made for one thing after the other. -/
theorem each_of_flatMap {ι : Type} {n : Nat} {f : ι → List Look} {is : List ι}
    (hin : Inside n (is.flatMap f)) (hpass : Passes (is.flatMap f)) :
    ∀ i ∈ is, Inside n (f i) ∧ Passes (f i) := by
  induction is with
  | nil => exact fun _ h => by cases h
  | cons i is ih =>
      rw [List.flatMap_cons, inside_append] at hin
      rw [List.flatMap_cons, passes_append] at hpass
      intro j hj
      rcases List.mem_cons.mp hj with rfl | hj
      · exact ⟨hin.1, hpass.1⟩
      · exact ih (hin.2 hpass.1) hpass.2 j hj

/-- **The run makes these looks in a file of `n` bytes**, and ends with `a` where none fails. -/
structure Performs (n : Nat) (x : Outcome ε α) (ls : List Look) (a : α) : Prop where
  outside : ¬ Inside n ls → x = .outside
  rejected : Inside n ls → ¬ Passes ls → ∃ e, x = .rejected e
  done : Inside n ls → Passes ls → x = .done a

namespace Performs

variable {n : Nat} {x : Outcome ε α} {ls ls' : List Look} {a : α} {b : β}

theorem pure (a : α) : Performs n (.done a : Outcome ε α) [] a where
  outside := fun h => absurd trivial h
  rejected := fun _ h => absurd passes_nil h
  done := fun _ _ => rfl

/-- A check of what has been read. -/
theorem check (e : ε) (c : Bool) :
    Performs n (if c then .done () else .rejected e) [⟨0, c⟩] () where
  outside := fun h => absurd ⟨Nat.zero_le _, fun _ => trivial⟩ h
  rejected := fun _ h => by
    have hc : ¬ c = true := fun hc => h (passes_cons.mpr ⟨hc, passes_nil⟩)
    exact ⟨e, if_neg hc⟩
  done := fun _ h => if_pos (passes_cons.mp h).1

/-- A field. -/
theorem read {stop : Nat} (hin : stop ≤ n → x = .done a) (hout : ¬ stop ≤ n → x = .outside) :
    Performs n x [⟨stop, true⟩] a where
  outside := fun h => hout fun hle => h ⟨hle, fun _ => trivial⟩
  rejected := fun _ h => absurd (passes_cons.mpr ⟨rfl, passes_nil⟩) h
  done := fun h _ => hin h.1

/-- **One run after the other.** -/
theorem bind {f : α → Outcome ε β} (h : Performs n x ls a)
    (hf : Inside n ls → Passes ls → Performs n (f a) ls' b) :
    Performs n (x >>= f) (ls ++ ls') b := by
  by_cases hin : Inside n ls
  · by_cases hpass : Passes ls
    · have hnext := hf hin hpass
      have hx : (x >>= f) = f a := by rw [h.done hin hpass, done_bind]
      rw [hx]
      refine ⟨fun hn => hnext.outside fun hi => hn ?_, fun hi hn => ?_, fun hi hp => ?_⟩
      · exact inside_append.mpr ⟨hin, fun _ => hi⟩
      · exact hnext.rejected ((inside_append.mp hi).2 hpass) fun hp =>
          hn (passes_append.mpr ⟨hpass, hp⟩)
      · exact hnext.done ((inside_append.mp hi).2 hpass) (passes_append.mp hp).2
    · obtain ⟨e, he⟩ := h.rejected hin hpass
      have hx : (x >>= f) = .rejected e := by
        rw [he]
        rfl
      refine ⟨fun hn => absurd ?_ hn, fun _ _ => ⟨e, hx⟩, fun _ hp => ?_⟩
      · exact inside_append.mpr ⟨hin, fun hp => absurd hp hpass⟩
      · exact absurd (passes_append.mp hp).1 hpass
  · have hx : (x >>= f) = .outside := by
      rw [h.outside hin]
      rfl
    exact ⟨fun _ => hx, fun hi _ => absurd (inside_append.mp hi).1 hin,
      fun hi _ => absurd (inside_append.mp hi).1 hin⟩

/-- A run whose looks are another way to write the same ones. -/
theorem congr (h : Performs n x ls a) (hls : ls = ls') : Performs n x ls' a := hls ▸ h

end Performs

end Looks
