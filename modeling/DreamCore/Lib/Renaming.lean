import Mathlib.Data.List.Induction
import Mathlib.Data.List.Nodup
import Mathlib.Data.Set.Function

/-!
# Renaming

Names stand for cells, and a name that is assigned to gets a new cell every time. A
list of assignments takes a map from names to cells to another one, and frees the
cell each of its names had before.

If the new cells are new, every cell has one owner: the name that has it to begin with,
or the assignment that it is the new cell of. So no cell that some later map still
knows is among those that have been freed.
-/

namespace Renaming

variable {α β : Type*} [DecidableEq α]

/-- **Where the names are** after the assignments of `l`, each a name and its new cell. -/
def after (m : α → β) (l : List (α × β)) : α → β :=
  l.foldl (fun m e => Function.update m e.1 e.2) m

/-- The cells that the assignments of `l` leave, in their order. -/
def freed (m : α → β) : List (α × β) → List β
  | [] => []
  | e :: l => m e.1 :: freed (Function.update m e.1 e.2) l

variable {m : α → β} {l l₁ l₂ : List (α × β)} {e : α × β} {a b : α} {x : β}

@[simp] theorem after_nil : after m [] = m := rfl

@[simp] theorem after_cons : after m (e :: l) = after (Function.update m e.1 e.2) l := rfl

theorem after_append : after m (l₁ ++ l₂) = after (after m l₁) l₂ := List.foldl_append

theorem after_concat : after m (l ++ [e]) = Function.update (after m l) e.1 e.2 := after_append

@[simp] theorem freed_cons :
    freed m (e :: l) = m e.1 :: freed (Function.update m e.1 e.2) l := rfl

theorem length_freed (m : α → β) (l : List (α × β)) : (freed m l).length = l.length := by
  induction l generalizing m with
  | nil => rfl
  | cons e l ih => rw [freed_cons, List.length_cons, List.length_cons, ih]

/-- **A name is where it was**, or where one of the assignments has put it. -/
theorem after_cases (m : α → β) (l : List (α × β)) (a : α) :
    after m l a = m a ∨ ∃ e ∈ l, e.1 = a ∧ e.2 = after m l a := by
  induction l using List.reverseRecOn with
  | nil => exact .inl rfl
  | append_singleton l e ih =>
    rw [after_concat]
    by_cases ha : a = e.1
    · rw [ha, Function.update_self]
      exact .inr ⟨e, by simp, rfl, rfl⟩
    · rw [Function.update_of_ne ha]
      refine ih.imp id fun ⟨e', he', h⟩ => ⟨e', List.mem_append_left _ he', h⟩

/-- **The new cells are new**: to the names of `dom`, which have one cell each, and to each
other. -/
structure Fresh (dom : Set α) (m : α → β) (l : List (α × β)) : Prop where
  injOn : Set.InjOn m dom
  nodup : (l.map Prod.snd).Nodup
  mem : ∀ e ∈ l, e.1 ∈ dom
  new : ∀ e ∈ l, ∀ a ∈ dom, m a ≠ e.2

namespace Fresh

variable {dom : Set α}

/-- After an assignment the others are still fresh. -/
theorem tail (h : Fresh dom m (e :: l)) : Fresh dom (Function.update m e.1 e.2) l := by
  have hnd := List.nodup_cons.mp h.nodup
  have hnew := h.new e (by simp)
  refine ⟨fun a ha b hb hab => ?_, hnd.2, fun e' he' => h.mem e' (List.mem_cons_of_mem _ he'),
    fun e' he' a ha => ?_⟩
  · by_cases hae : a = e.1 <;> by_cases hbe : b = e.1
    · rw [hae, hbe]
    · rw [hae, Function.update_self, Function.update_of_ne hbe] at hab
      exact absurd hab.symm (hnew b hb)
    · rw [hbe, Function.update_self, Function.update_of_ne hae] at hab
      exact absurd hab (hnew a ha)
    · rw [Function.update_of_ne hae, Function.update_of_ne hbe] at hab
      exact h.injOn ha hb hab
  · by_cases hae : a = e.1
    · rw [hae, Function.update_self]
      exact fun he => hnd.1 (he ▸ List.mem_map_of_mem he')
    · rw [Function.update_of_ne hae]
      exact h.new e' (List.mem_cons_of_mem _ he') a ha

omit [DecidableEq α] in
/-- The first assignments of a fresh list are fresh. -/
theorem left (h : Fresh dom m (l₁ ++ l₂)) : Fresh dom m l₁ where
  injOn := h.injOn
  nodup := (List.nodup_append.mp (List.map_append ▸ h.nodup)).1
  mem e he := h.mem e (List.mem_append_left _ he)
  new e he := h.new e (List.mem_append_left _ he)

/-- **A cell nobody knows stays unknown**, unless it is one of the new ones. -/
theorem after_ne (ha : a ∈ dom) (hold : ∀ b ∈ dom, m b ≠ x) (hnew : ∀ e ∈ l, e.2 ≠ x) :
    after m l a ≠ x := by
  rcases after_cases m l a with h | ⟨e, he, -, h⟩
  · rw [h]
    exact hold a ha
  · rw [← h]
    exact hnew e he

/-- The cell an assignment frees is no cell of the map behind it. -/
theorem after_ne_freed (h : Fresh dom m (e :: l)) (ha : a ∈ dom) : after m (e :: l) a ≠ m e.1 := by
  have he := h.mem e (by simp)
  have hnew := h.new e (by simp)
  rw [after_cons]
  refine after_ne ha (fun b hb => ?_) fun e' he' heq =>
    h.new e' (List.mem_cons_of_mem _ he') e.1 he heq.symm
  by_cases hbe : b = e.1
  · rw [hbe, Function.update_self]
    exact (hnew e.1 he).symm
  · rw [Function.update_of_ne hbe]
    exact fun heq => hbe (h.injOn hb he heq)

/-- **What is in use has not been freed.** -/
theorem not_mem_freed (h : Fresh dom m (l₁ ++ l₂)) (ha : a ∈ dom) :
    after m (l₁ ++ l₂) a ∉ freed m l₁ := by
  induction l₁ generalizing m with
  | nil => exact List.not_mem_nil
  | cons e l₁ ih =>
    rw [freed_cons, List.mem_cons, not_or]
    exact ⟨h.after_ne_freed ha, ih h.tail⟩

/-- **The owner of a new cell** is the only one: a map in which the cell is in use comes after
it. -/
theorem owner_mem (h : Fresh dom m (l₁ ++ l₂)) (ha : a ∈ dom) (he : e ∈ l₁ ++ l₂)
    (hx : after m l₁ a = e.2) : e ∈ l₁ := by
  rcases after_cases m l₁ a with hold | ⟨e', he', -, h'⟩
  · exact absurd (hold.symm.trans hx) (h.new e he a ha)
  · have := List.inj_on_of_nodup_map h.nodup (List.mem_append_left _ he') he (h'.trans hx)
    exact this ▸ he'

end Fresh

end Renaming
