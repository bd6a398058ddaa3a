import Mathlib.Data.List.Induction

/-!
# Picking the first of the candidates

The selection loop of an arbiter: walk over the slots, keep a candidate, and
replace it when a later slot holds a candidate that beats it. When beating is the
order of some rank, and no two candidates have the same rank, the loop ends with
the one candidate that beats all others, in whatever order it walks.
-/

namespace Pick

variable {α : Type}

/-- The loop over `l`: `p` says what a candidate is. -/
def pick (beats : α → α → Bool) (p : α → Bool) (l : List α) : Option α :=
  l.foldl (fun sel a => if p a && sel.all (fun b => beats a b) then some a else sel) none

/-- `a` is the candidate that beats all others. -/
structure First (beats : α → α → Bool) (p : α → Bool) (l : List α) (a : α) : Prop where
  mem : a ∈ l
  candidate : p a = true
  beats : ∀ b ∈ l, p b = true → b ≠ a → beats a b = true

/-- Among the candidates, beating is having the smaller rank, and ranks differ. -/
structure Ranked (beats : α → α → Bool) (p : α → Bool) (l : List α) (rank : α → Nat) : Prop where
  beats_iff : ∀ a ∈ l, p a = true → ∀ b ∈ l, p b = true → (beats a b = true ↔ rank a < rank b)
  inj : ∀ a ∈ l, p a = true → ∀ b ∈ l, p b = true → rank a = rank b → a = b

variable {beats : α → α → Bool} {p q : α → Bool} {l : List α} {rank : α → Nat} {a b : α}

theorem Ranked.mono (h : Ranked beats p l rank) (hq : ∀ a ∈ l, q a = true → p a = true) :
    Ranked beats q l rank where
  beats_iff a ha hqa b hb hqb := h.beats_iff a ha (hq a ha hqa) b hb (hq b hb hqb)
  inj a ha hqa b hb hqb := h.inj a ha (hq a ha hqa) b hb (hq b hb hqb)

theorem Ranked.left {l₁ l₂ : List α} (h : Ranked beats p (l₁ ++ l₂) rank) :
    Ranked beats p l₁ rank where
  beats_iff a ha hpa b hb hpb :=
    h.beats_iff a (List.mem_append_left _ ha) hpa b (List.mem_append_left _ hb) hpb
  inj a ha hpa b hb hpb :=
    h.inj a (List.mem_append_left _ ha) hpa b (List.mem_append_left _ hb) hpb

/-- **There is at most one first candidate.** -/
theorem First.unique (h : Ranked beats p l rank) (ha : First beats p l a)
    (hb : First beats p l b) : a = b := by
  by_contra hne
  have hab := ha.beats b hb.mem hb.candidate (Ne.symm hne)
  have hba := hb.beats a ha.mem ha.candidate hne
  rw [h.beats_iff a ha.mem ha.candidate b hb.mem hb.candidate] at hab
  rw [h.beats_iff b hb.mem hb.candidate a ha.mem ha.candidate] at hba
  omega

theorem pick_snoc : pick beats p (l ++ [a])
    = if p a && (pick beats p l).all (fun b => beats a b) then some a else pick beats p l := by
  simp [pick, List.foldl_append]

/-- Whatever beating is, the loop ends with a candidate. -/
theorem pick_mem (h : pick beats p l = some a) : a ∈ l ∧ p a = true := by
  induction l using List.reverseRecOn with
  | nil => cases h
  | append_singleton l c ih =>
    rw [pick_snoc] at h
    split at h
    · rename_i hwin
      obtain rfl := Option.some.inj h
      exact ⟨List.mem_append_right _ (List.mem_singleton_self c), (Bool.and_eq_true_iff.mp hwin).1⟩
    · obtain ⟨hmem, hcand⟩ := ih h
      exact ⟨List.mem_append_left _ hmem, hcand⟩

/-- Among the candidates, beating is the strict part of an order; several may be equal in it. -/
structure Ordered (beats : α → α → Bool) (p : α → Bool) (l : List α) : Prop where
  asymm : ∀ a ∈ l, p a = true → ∀ b ∈ l, p b = true → beats a b = true → beats b a = false
  trans : ∀ a ∈ l, p a = true → ∀ b ∈ l, p b = true → ∀ c ∈ l, p c = true →
    beats a b = false → beats b c = false → beats a c = false

theorem Ordered.left {l₁ l₂ : List α} (h : Ordered beats p (l₁ ++ l₂)) : Ordered beats p l₁ where
  asymm a ha hpa b hb hpb :=
    h.asymm a (List.mem_append_left _ ha) hpa b (List.mem_append_left _ hb) hpb
  trans a ha hpa b hb hpb c hc hpc :=
    h.trans a (List.mem_append_left _ ha) hpa b (List.mem_append_left _ hb) hpb c
      (List.mem_append_left _ hc) hpc

/-- **The loop ends with a candidate that no candidate beats**, or there is none. -/
theorem pick_unbeaten (h : Ordered beats p l) :
    (∀ a, pick beats p l = some a → ∀ b ∈ l, p b = true → beats b a = false)
      ∧ (pick beats p l = none → ∀ a ∈ l, p a = false) := by
  induction l using List.reverseRecOn with
  | nil =>
    refine ⟨fun a ha => ?_, fun _ a ha => ?_⟩
    · cases ha
    · cases ha
  | append_singleton l c ih =>
    obtain ⟨ihSome, ihNone⟩ := ih h.left
    have hc : c ∈ l ++ [c] := List.mem_append_right _ (List.mem_singleton_self c)
    have hself (hpc : p c = true) : beats c c = false := by
      cases hcc : beats c c with
      | false => rfl
      | true => rw [← hcc, h.asymm c hc hpc c hc hpc hcc]
    rw [pick_snoc]
    cases hsel : pick beats p l with
    | none =>
      have hnone := ihNone hsel
      cases hpc : p c with
      | false =>
        refine ⟨fun a ha => by simp at ha, fun _ a ha => ?_⟩
        rcases List.mem_append.mp ha with ha | ha
        · exact hnone a ha
        · rw [List.mem_singleton.mp ha]
          exact hpc
      | true =>
        refine ⟨fun a ha b hb hpb => ?_, fun ha => by simp at ha⟩
        obtain rfl : c = a := by simpa using ha
        rcases List.mem_append.mp hb with hb | hb
        · rw [hnone b hb] at hpb
          cases hpb
        · rw [List.mem_singleton.mp hb]
          exact hself hpc
    | some s =>
      have hunbeaten := ihSome s hsel
      obtain ⟨hsl, hps⟩ := pick_mem hsel
      have hs : s ∈ l ++ [c] := List.mem_append_left _ hsl
      refine ⟨fun a ha b hb hpb => ?_, fun ha => by split at ha <;> cases ha⟩
      by_cases hwin : (p c && beats c s) = true
      · obtain rfl : c = a := by simpa [hwin] using ha
        rw [Bool.and_eq_true] at hwin
        rcases List.mem_append.mp hb with hbl | hbl
        · -- who does not beat the old one does not beat the new one either
          exact h.trans b hb hpb s hs hps c hc hwin.1 (hunbeaten b hbl hpb)
            (h.asymm c hc hwin.1 s hs hps hwin.2)
        · rw [List.mem_singleton.mp hbl]
          exact hself hwin.1
      · obtain rfl : s = a := by simpa [hwin] using ha
        rcases List.mem_append.mp hb with hbl | hbl
        · exact hunbeaten b hbl hpb
        · obtain rfl := List.mem_singleton.mp hbl
          rw [hpb, Bool.true_and] at hwin
          exact Bool.eq_false_iff.mpr hwin

/-- **What the loop ends with**: the first candidate, or nothing when there is none. -/
theorem pick_spec (h : Ranked beats p l rank) :
    (∀ a, pick beats p l = some a → First beats p l a)
      ∧ (pick beats p l = none → ∀ a ∈ l, p a = false) := by
  induction l using List.reverseRecOn with
  | nil =>
    refine ⟨fun a ha => ?_, fun _ a ha => ?_⟩
    · cases ha
    · cases ha
  | append_singleton l c ih =>
    obtain ⟨ihSome, ihNone⟩ := ih h.left
    have hc : c ∈ l ++ [c] := List.mem_append_right _ (List.mem_singleton_self c)
    rw [pick_snoc]
    cases hsel : pick beats p l with
    | none =>
      have hnone := ihNone hsel
      cases hpc : p c with
      | false =>
        refine ⟨fun a ha => by simp at ha, fun _ a ha => ?_⟩
        rcases List.mem_append.mp ha with ha | ha
        · exact hnone a ha
        · rw [List.mem_singleton.mp ha]
          exact hpc
      | true =>
        refine ⟨fun a ha => ?_, fun ha => by simp at ha⟩
        obtain rfl : c = a := by simpa using ha
        refine ⟨hc, hpc, fun b hb hpb hne => ?_⟩
        rcases List.mem_append.mp hb with hb | hb
        · rw [hnone b hb] at hpb
          cases hpb
        · exact absurd (List.mem_singleton.mp hb) hne
    | some s =>
      obtain ⟨hs, hps, hbeats⟩ := ihSome s hsel
      have hs' : s ∈ l ++ [c] := List.mem_append_left _ hs
      refine ⟨fun a ha => ?_, fun ha => by split at ha <;> cases ha⟩
      by_cases hwin : (p c && beats c s) = true
      · -- the new candidate wins, and with it over everyone the old one has beaten
        have hac : c = a := by simpa [hwin] using ha
        subst hac
        rw [Bool.and_eq_true] at hwin
        have hlt := (h.beats_iff c hc hwin.1 s hs' hps).mp hwin.2
        refine ⟨hc, hwin.1, fun b hb hpb hne => ?_⟩
        rw [h.beats_iff c hc hwin.1 b hb hpb]
        rcases List.mem_append.mp hb with hbl | hbl
        · by_cases hbs : b = s
          · rw [hbs]
            exact hlt
          · have := (h.beats_iff s hs' hps b hb hpb).mp (hbeats b hbl hpb hbs)
            omega
        · exact absurd (List.mem_singleton.mp hbl) hne
      · have has : s = a := by simpa [hwin] using ha
        subst has
        refine ⟨hs', hps, fun b hb hpb hne => ?_⟩
        rcases List.mem_append.mp hb with hbl | hbl
        · exact hbeats b hbl hpb hne
        · obtain rfl := List.mem_singleton.mp hbl
          rw [hpb, Bool.true_and, h.beats_iff b hb hpb s hs' hps] at hwin
          rw [h.beats_iff s hs' hps b hb hpb]
          rcases Nat.lt_trichotomy (rank s) (rank b) with hlt | heq | hgt
          · exact hlt
          · exact absurd (h.inj s hs' hps b hb hpb heq).symm hne
          · exact absurd hgt hwin

/-- **The loop picks the first candidate.** -/
theorem pick_eq_some_iff (h : Ranked beats p l rank) :
    pick beats p l = some a ↔ First beats p l a := by
  constructor
  · exact (pick_spec h).1 a
  · intro ha
    cases hsel : pick beats p l with
    | none =>
      have := (pick_spec h).2 hsel a ha.mem
      rw [ha.candidate] at this
      cases this
    | some b => rw [((pick_spec h).1 b hsel).unique h ha]

/-- The loop picks nothing only when there is no candidate. -/
theorem pick_eq_none_iff (h : Ranked beats p l rank) :
    pick beats p l = none ↔ ∀ a ∈ l, p a = false := by
  constructor
  · exact (pick_spec h).2
  · intro hnone
    cases hsel : pick beats p l with
    | none => rfl
    | some a =>
      have ha := (pick_spec h).1 a hsel
      have := hnone a ha.mem
      rw [ha.candidate] at this
      cases this

end Pick
