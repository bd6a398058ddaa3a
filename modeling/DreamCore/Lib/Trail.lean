import Mathlib.Data.List.Basic

/-!
# Trails

A list of steps that lead on from one another: every step starts where the one before
it has led. Where a step may start, and where it leads, is up to the user, so that the
same trail can be read off different records of the same steps.

A walk is the same for steps that leave open where they lead: each only says whether
it can go from one state to another.
-/

variable {α β γ δ : Type*}

/-- **A trail** along `l`, from `b` to where the last step leads. -/
def Trail (At : α → β → Prop) (next : α → β) : β → List α → β → Prop
  | b, [], c => c = b
  | b, a :: l, c => At a b ∧ Trail At next (next a) l c

namespace Trail

variable {At : α → β → Prop} {next : α → β} {b c d : β} {l m : List α} {a : α}

@[simp] theorem nil_iff : Trail At next b [] c ↔ c = b := Iff.rfl

@[simp] theorem cons_iff :
    Trail At next b (a :: l) c ↔ At a b ∧ Trail At next (next a) l c := Iff.rfl

/-- **Trails compose**, and come apart, at any point. -/
theorem append_iff : Trail At next b (l ++ m) d
    ↔ ∃ c, Trail At next b l c ∧ Trail At next c m d := by
  induction l generalizing b with
  | nil =>
    constructor
    · intro h
      exact ⟨b, rfl, h⟩
    · rintro ⟨c, rfl, h⟩
      exact h
  | cons a l ih =>
    constructor
    · intro ⟨ha, h⟩
      obtain ⟨c, hl, hm⟩ := ih.mp h
      exact ⟨c, ⟨ha, hl⟩, hm⟩
    · intro ⟨c, ⟨ha, hl⟩, hm⟩
      exact ⟨ha, ih.mpr ⟨c, hl, hm⟩⟩

theorem append (hl : Trail At next b l c) (hm : Trail At next c m d) :
    Trail At next b (l ++ m) d :=
  append_iff.mpr ⟨c, hl, hm⟩

/-- The end of a trail is where its last step leads. -/
theorem concat_iff : Trail At next b (l ++ [a]) d
    ↔ ∃ c, Trail At next b l c ∧ At a c ∧ d = next a := append_iff

/-- **The same steps, recorded otherwise.** -/
theorem transfer {ι : Type*} {At' : γ → β → Prop} {next' : γ → β} {f : ι → α} {g : ι → γ}
    {l : List ι} (h : Trail At next b (l.map f) c)
    (hat : ∀ i ∈ l, ∀ b, At (f i) b → At' (g i) b) (hnext : ∀ i ∈ l, next' (g i) = next (f i)) :
    Trail At' next' b (l.map g) c := by
  induction l generalizing b with
  | nil => exact h
  | cons i l ih =>
    have hi := List.mem_cons_self (a := i) (l := l)
    refine ⟨hat i hi b h.1, ?_⟩
    rw [hnext i hi]
    exact ih h.2 (fun j hj => hat j (List.mem_cons_of_mem _ hj))
      fun j hj => hnext j (List.mem_cons_of_mem _ hj)

end Trail

/-! ## Waiting at the end -/

/-- **Only the last step of `l` may halt**, and whoever walks is waiting then. -/
def Halts (halt : α → Bool) (l : List α) (waiting : Bool) : Prop :=
  ∀ l₁ a l₂, l = l₁ ++ a :: l₂ → halt a = true → l₂ = [] ∧ waiting = true

namespace Halts

variable {halt : α → Bool} {l m : List α} {a : α} {w w' : Bool}

theorem of_none (h : ∀ a ∈ l, halt a = false) : Halts halt l w := by
  rintro l₁ a l₂ rfl ha
  rw [h a (by simp)] at ha
  cases ha

theorem nil : Halts halt [] w := of_none (by simp)

/-- Nothing halts in front of another step. -/
theorem before (h : Halts halt (l ++ a :: m) w) : ∀ b ∈ l, halt b = false := by
  intro b hb
  rw [Bool.eq_false_iff]
  intro hhalt
  obtain ⟨l₁, l₂, rfl⟩ := List.append_of_mem hb
  rw [List.append_assoc, List.cons_append] at h
  have := (h l₁ b _ rfl hhalt).1
  simp at this

/-- What is behind the first steps. -/
theorem of_append (h : Halts halt (l ++ m) w) : Halts halt m w := by
  rintro l₁ a l₂ rfl ha
  exact h (l ++ l₁) a l₂ (List.append_assoc ..).symm ha

/-- A step that halts has nothing behind it. -/
theorem last (h : Halts halt (l ++ a :: m) w) (ha : halt a = true) : m = [] ∧ w = true :=
  h l a m rfl ha

/-- **Whoever is waiting does not go on.** -/
theorem append (h : Halts halt l w) (hm : Halts halt m w') (hw : w = true → m = [] ∧ w' = true) :
    Halts halt (l ++ m) w' := by
  intro l₁ a l₂ heq ha
  rcases List.append_eq_append_iff.mp heq with ⟨c, rfl, hc⟩ | ⟨c, hl, hc⟩
  · exact hm c a l₂ hc ha
  · cases c with
    | nil => exact hm [] a l₂ hc.symm ha
    | cons b c =>
      obtain ⟨rfl, rfl⟩ := List.cons.inj hc
      obtain ⟨rfl, hwait⟩ := h l₁ a c hl ha
      obtain ⟨rfl, hwait'⟩ := hw hwait
      exact ⟨rfl, hwait'⟩

theorem map_iff {f : γ → α} {l : List γ} :
    Halts halt (l.map f) w ↔ Halts (fun c => halt (f c)) l w := by
  constructor
  · rintro h l₁ a l₂ rfl ha
    have := h (l₁.map f) (f a) (l₂.map f) (by simp) ha
    exact ⟨List.map_eq_nil_iff.mp this.1, this.2⟩
  · intro h l₁ a l₂ heq ha
    obtain ⟨m₁, m₂, rfl, rfl, hm⟩ := List.map_eq_append_iff.mp heq
    obtain ⟨c, m₃, rfl, rfl, rfl⟩ := List.map_eq_cons_iff.mp hm
    obtain ⟨rfl, hw⟩ := h m₁ c m₃ rfl ha
    exact ⟨rfl, hw⟩

end Halts

/-! ## Walks -/

/-- **A walk** along `l`, from `b` to `c`: every step is one that `Step` allows. -/
def Walk (Step : β → α → β → Prop) : β → List α → β → Prop
  | b, [], c => c = b
  | b, a :: l, c => ∃ b', Step b a b' ∧ Walk Step b' l c

namespace Walk

variable {Step : β → α → β → Prop} {b c d : β} {l m : List α} {a : α}

@[simp] theorem nil_iff : Walk Step b [] c ↔ c = b := Iff.rfl

@[simp] theorem cons_iff :
    Walk Step b (a :: l) c ↔ ∃ b', Step b a b' ∧ Walk Step b' l c := Iff.rfl

/-- **Walks compose.** -/
theorem append (hl : Walk Step b l c) (hm : Walk Step c m d) : Walk Step b (l ++ m) d := by
  induction l generalizing b with
  | nil =>
    obtain rfl : c = b := hl
    exact hm
  | cons a l ih =>
    obtain ⟨b', ha, hl⟩ := hl
    exact ⟨b', ha, ih hl⟩

end Walk

/-- **A trail and a walk along the same steps** are one walk, in both at once. -/
theorem Trail.walk {At : α → β → Prop} {next : α → β} {Step : γ → α → γ → Prop}
    {Step' : δ → α → δ → Prop} {mk : β → γ → δ} {b c : β} {x y : γ} {l : List α}
    (ht : Trail At next b l c) (hw : Walk Step x l y)
    (hstep : ∀ a b x y, At a b → Step x a y → Step' (mk b x) a (mk (next a) y)) :
    Walk Step' (mk b x) l (mk c y) := by
  induction l generalizing b x with
  | nil =>
    obtain rfl : c = b := ht
    obtain rfl : y = x := hw
    rfl
  | cons a l ih =>
    obtain ⟨ha, ht⟩ := ht
    obtain ⟨x', hx, hw⟩ := hw
    exact ⟨mk (next a) x', hstep a b x x' ha hx, ih ht hw⟩
