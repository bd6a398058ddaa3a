import Mathlib.Data.List.Basic
import Mathlib.Data.List.Induction

/-!
# One request at a time

A party takes numbered turns. Some turns end by themselves; the others need an
answer from outside: the party sends a request, waits, and ends the turn with the
answer. It keeps nothing of the request but that it waits, and the answer carries
no name either. Whose answer it is then only follows from the order of events, and
this module says what the order is worth.
-/

namespace Exchange

variable {ρ β γ : Type*}

/-- What happens, each event with the number of its turn. -/
inductive Event (ρ β γ : Type*) where
  | sent (n : Nat) (r : ρ)
  | answered (n : Nat) (b : β)
  | left (n : Nat) (c : γ)

/-- Where the turn stands that comes next. -/
inductive Phase (ρ β : Type*) where
  | idle
  | sent (r : ρ)
  | answered (r : ρ) (b : β)

/-- **The logs of such a party**, with the number of turns that have ended and the phase of the
next. A turn of kind `plain` ends by itself, any other ends `done` with its own request and answer. -/
inductive Trace (plain : γ → Prop) (done : ρ → β → γ → Prop) :
    List (Event ρ β γ) → Nat → Phase ρ β → Prop where
  | start : Trace plain done [] 0 .idle
  | plain {l : List (Event ρ β γ)} {n : Nat} {c : γ} :
      Trace plain done l n .idle → plain c → Trace plain done (l ++ [.left n c]) (n + 1) .idle
  | sent {l : List (Event ρ β γ)} {n : Nat} (r : ρ) :
      Trace plain done l n .idle → Trace plain done (l ++ [.sent n r]) n (.sent r)
  | answered {l : List (Event ρ β γ)} {n : Nat} {r : ρ} (b : β) :
      Trace plain done l n (.sent r) →
      Trace plain done (l ++ [.answered n b]) n (.answered r b)
  | done {l : List (Event ρ β γ)} {n : Nat} {r : ρ} {b : β} {c : γ} :
      Trace plain done l n (.answered r b) → done r b c →
      Trace plain done (l ++ [.left n c]) (n + 1) .idle

/-- Turns that end one after the other, from turn `n` on. -/
def ended (n : Nat) : List γ → List (Event ρ β γ)
  | [] => []
  | c :: cs => .left n c :: ended (n + 1) cs

/-- The turns that have ended. -/
def turns : List (Event ρ β γ) → Nat
  | [] => 0
  | .left _ _ :: l => turns l + 1
  | _ :: l => turns l

theorem turns_append (l l' : List (Event ρ β γ)) : turns (l ++ l') = turns l + turns l' := by
  induction l with
  | nil => rw [List.nil_append, turns, Nat.zero_add]
  | cons e l ih =>
    cases e with
    | sent n r => exact ih
    | answered n b => exact ih
    | left n c =>
      rw [List.cons_append, turns, turns, ih]
      omega

namespace Trace

variable {plain : γ → Prop} {done : ρ → β → γ → Prop} {l l₁ l₂ : List (Event ρ β γ)} {n k : Nat}
  {p : Phase ρ β} {r : ρ} {b : β} {c : γ}

/-- The number is the number of turns that have ended. -/
theorem turns_eq (h : Trace plain done l n p) : turns l = n := by
  induction h with
  | start => rfl
  | plain _ _ ih => rw [turns_append, ih]; rfl
  | sent _ _ ih => rw [turns_append, ih]; rfl
  | answered _ _ ih => rw [turns_append, ih]; rfl
  | done _ _ ih => rw [turns_append, ih]; rfl

/-- Any number of turns that end by themselves. -/
theorem plain_list (h : Trace plain done l n .idle) (cs : List γ) (hcs : ∀ c ∈ cs, plain c) :
    Trace plain done (l ++ ended n cs) (n + cs.length) .idle := by
  induction cs generalizing l n with
  | nil => rwa [ended, List.append_nil]
  | cons c cs ih =>
    have hrest := ih (h.plain (hcs c (List.mem_cons_self ..))) fun c' hc' =>
      hcs c' (List.mem_cons_of_mem _ hc')
    rw [List.append_assoc, List.singleton_append] at hrest
    rw [ended, List.length_cons, Nat.add_comm cs.length, ← Nat.add_assoc]
    exact hrest

/-! ## The last event -/

theorem concat_left (h : Trace plain done (l ++ [.left k c]) n p) :
    n = k + 1 ∧ p = .idle ∧ ((Trace plain done l k .idle ∧ plain c)
      ∨ ∃ r b, Trace plain done l k (.answered r b) ∧ done r b c) := by
  generalize hm : l ++ [.left k c] = m at h
  cases h with
  | start => simp at hm
  | plain h hc =>
    obtain ⟨rfl, hx⟩ := List.append_inj' hm rfl
    cases hx
    exact ⟨rfl, rfl, .inl ⟨h, hc⟩⟩
  | sent _ _ =>
    obtain ⟨-, hx⟩ := List.append_inj' hm rfl
    cases hx
  | answered _ _ =>
    obtain ⟨-, hx⟩ := List.append_inj' hm rfl
    cases hx
  | done h hd =>
    obtain ⟨rfl, hx⟩ := List.append_inj' hm rfl
    cases hx
    exact ⟨rfl, rfl, .inr ⟨_, _, h, hd⟩⟩

theorem concat_sent (h : Trace plain done (l ++ [.sent k r]) n p) :
    n = k ∧ p = .sent r ∧ Trace plain done l k .idle := by
  generalize hm : l ++ [.sent k r] = m at h
  cases h with
  | start => simp at hm
  | sent _ h =>
    obtain ⟨rfl, hx⟩ := List.append_inj' hm rfl
    cases hx
    exact ⟨rfl, rfl, h⟩
  | plain _ _ | answered _ _ | done _ _ =>
    obtain ⟨-, hx⟩ := List.append_inj' hm rfl
    cases hx

theorem concat_answered (h : Trace plain done (l ++ [.answered k b]) n p) :
    n = k ∧ ∃ r, p = .answered r b ∧ Trace plain done l k (.sent r) := by
  generalize hm : l ++ [.answered k b] = m at h
  cases h with
  | start => simp at hm
  | answered _ h =>
    obtain ⟨rfl, hx⟩ := List.append_inj' hm rfl
    cases hx
    exact ⟨rfl, _, rfl, h⟩
  | plain _ _ | sent _ _ | done _ _ =>
    obtain ⟨-, hx⟩ := List.append_inj' hm rfl
    cases hx

/-- **What a log began with is a log.** -/
theorem take (h : Trace plain done l n p) (hs : l = l₁ ++ l₂) : ∃ n' p', Trace plain done l₁ n' p' := by
  -- the log itself, or a beginning of what it was before its last event
  have hgrow : ∀ {l : List (Event ρ β γ)} {x : Event ρ β γ} {n p}, Trace plain done (l ++ [x]) n p →
      (∀ {l₂}, l = l₁ ++ l₂ → ∃ n' p', Trace plain done l₁ n' p') →
      ∀ {l₂}, l ++ [x] = l₁ ++ l₂ → ∃ n' p', Trace plain done l₁ n' p' := by
    intro l x n p h ih l₂ hs
    rcases List.eq_nil_or_concat l₂ with rfl | ⟨l₃, z, rfl⟩
    · rw [List.append_nil] at hs
      exact ⟨n, p, hs ▸ h⟩
    · rw [List.concat_eq_append, ← List.append_assoc] at hs
      exact ih (List.append_inj' hs rfl).1
  induction h generalizing l₂ with
  | start =>
    rw [(List.append_eq_nil_iff.mp hs.symm).1]
    exact ⟨0, .idle, .start⟩
  | plain h hc ih => exact hgrow (h.plain hc) ih hs
  | sent r h ih => exact hgrow (h.sent r) ih hs
  | answered b h ih => exact hgrow (h.answered b) ih hs
  | done h hd ih => exact hgrow (h.done hd) ih hs

/-- What a log began with, up to an event of it. -/
theorem upto {x : Event ρ β γ} (h : Trace plain done l n p) (hs : l = l₁ ++ x :: l₂) :
    ∃ n' p', Trace plain done (l₁ ++ [x]) n' p' := by
  have hs' : l = (l₁ ++ [x]) ++ l₂ := by rw [hs, List.append_assoc, List.singleton_append]
  exact h.take hs'

/-! ## Around an event -/

theorem ends_sent (h : Trace plain done l n (.sent r)) : ∃ l₀, l = l₀ ++ [.sent n r] := by
  cases h with
  | sent _ _ => exact ⟨_, rfl⟩

theorem ends_answered (h : Trace plain done l n (.answered r b)) :
    ∃ l₀, l = l₀ ++ [.sent n r, .answered n b] := by
  cases h with
  | answered _ h =>
    obtain ⟨l₀, rfl⟩ := h.ends_sent
    exact ⟨l₀, by rw [List.append_assoc, List.singleton_append]⟩

/-- **A turn that does not end by itself ends with its own request and answer**, which come right
before. -/
theorem left_split (h : Trace plain done l n p) (hs : l = l₁ ++ .left k c :: l₂) :
    plain c ∨ ∃ l₀ r b, l₁ = l₀ ++ [.sent k r, .answered k b] ∧ done r b c := by
  obtain ⟨n', p', h'⟩ := h.upto hs
  obtain ⟨-, -, ⟨-, hc⟩ | ⟨r, b, h₁, hd⟩⟩ := h'.concat_left
  · exact .inl hc
  · obtain ⟨l₀, hl₀⟩ := h₁.ends_answered
    exact .inr ⟨l₀, r, b, hl₀, hd⟩

/-- **What comes after an answer**: nothing yet, or the end of the turn that asked. -/
theorem answered_split (h : Trace plain done l n p) (hs : l = l₁ ++ .answered k b :: l₂) :
    ∃ l₀ r, l₁ = l₀ ++ [.sent k r]
      ∧ ((l₂ = [] ∧ n = k ∧ p = .answered r b) ∨ ∃ c l₃, l₂ = .left k c :: l₃ ∧ done r b c) := by
  obtain ⟨n', p', h'⟩ := h.upto hs
  obtain ⟨rfl, r, rfl, h₁⟩ := h'.concat_answered
  obtain ⟨l₀, hl₀⟩ := h₁.ends_sent
  refine ⟨l₀, r, hl₀, ?_⟩
  cases l₂ with
  | nil =>
    subst hs
    obtain ⟨hn, r', hp, h₂⟩ := h.concat_answered
    -- both requests end the same log
    obtain ⟨l₀', hl₀'⟩ := h₂.ends_sent
    rw [hl₀] at hl₀'
    obtain ⟨-, hx⟩ := List.append_inj' hl₀' rfl
    cases hx
    exact .inl ⟨rfl, hn, hp⟩
  | cons x l₃ =>
    rw [← List.singleton_append, ← List.append_assoc] at hs
    obtain ⟨n₂, p₂, h₂⟩ := h.upto hs
    cases x with
    | sent k' r' =>
      obtain ⟨-, -, h₃⟩ := h₂.concat_sent
      obtain ⟨-, _, hp, -⟩ := h₃.concat_answered
      cases hp
    | answered k' b' =>
      obtain ⟨-, _, -, h₃⟩ := h₂.concat_answered
      obtain ⟨-, _, hp, -⟩ := h₃.concat_answered
      cases hp
    | left k' c =>
      obtain ⟨-, -, ⟨h₃, -⟩ | ⟨r', b', h₃, hd⟩⟩ := h₂.concat_left
      · obtain ⟨-, _, hp, -⟩ := h₃.concat_answered
        cases hp
      · obtain ⟨rfl, r₃, hp, h₄⟩ := h₃.concat_answered
        cases hp
        obtain ⟨l₀', hl₀'⟩ := h₄.ends_sent
        rw [hl₀] at hl₀'
        obtain ⟨-, hx⟩ := List.append_inj' hl₀' rfl
        cases hx
        exact .inr ⟨c, l₃, rfl, hd⟩

/-- **What comes after a request**: nothing yet, or its answer. -/
theorem sent_split (h : Trace plain done l n p) (hs : l = l₁ ++ .sent k r :: l₂) :
    turns l₁ = k ∧ ((l₂ = [] ∧ n = k ∧ p = .sent r) ∨ ∃ b l₃, l₂ = .answered k b :: l₃) := by
  obtain ⟨n', p', h'⟩ := h.upto hs
  obtain ⟨rfl, rfl, h₁⟩ := h'.concat_sent
  refine ⟨h₁.turns_eq, ?_⟩
  cases l₂ with
  | nil =>
    subst hs
    obtain ⟨hn, hp, -⟩ := h.concat_sent
    exact .inl ⟨rfl, hn, hp⟩
  | cons x l₃ =>
    rw [← List.singleton_append, ← List.append_assoc] at hs
    obtain ⟨n₂, p₂, h₂⟩ := h.upto hs
    cases x with
    | sent k' r' =>
      obtain ⟨-, -, h₃⟩ := h₂.concat_sent
      obtain ⟨-, hp, -⟩ := h₃.concat_sent
      cases hp
    | answered k' b =>
      obtain ⟨-, _, -, h₃⟩ := h₂.concat_answered
      obtain ⟨rfl, -⟩ := h₃.concat_sent
      exact .inr ⟨b, l₃, rfl⟩
    | left k' c =>
      obtain ⟨-, -, ⟨h₃, -⟩ | ⟨_, _, h₃, -⟩⟩ := h₂.concat_left
      · obtain ⟨-, hp, -⟩ := h₃.concat_sent
        cases hp
      · obtain ⟨-, hp, -⟩ := h₃.concat_sent
        cases hp

/-- The turns that have asked so far. -/
theorem sent_bound (h : Trace plain done l n p) (hs : .sent k r ∈ l) :
    k < n ∨ (k = n ∧ p ≠ .idle) := by
  induction h with
  | start => cases hs
  | plain _ _ ih | done _ _ ih =>
    rcases List.mem_append.mp hs with hs | hs
    · rcases ih hs with hk | ⟨rfl, -⟩
      · exact .inl (by omega)
      · exact .inl (by omega)
    · rw [List.mem_singleton] at hs
      cases hs
  | sent r' _ ih =>
    rcases List.mem_append.mp hs with hs | hs
    · rcases ih hs with hk | ⟨-, hp⟩
      · exact .inl hk
      · exact absurd rfl hp
    · rw [List.mem_singleton] at hs
      cases hs
      exact .inr ⟨rfl, fun hp => by cases hp⟩
  | answered _ _ ih =>
    rcases List.mem_append.mp hs with hs | hs
    · rcases ih hs with hk | ⟨hk, -⟩
      · exact .inl hk
      · exact .inr ⟨hk, fun hp => by cases hp⟩
    · rw [List.mem_singleton] at hs
      cases hs

/-- **A turn asks at most once.** -/
theorem sent_once (h : Trace plain done l n p) (hs : l = l₁ ++ .sent k r :: l₂) :
    ∀ r', .sent k r' ∉ l₁ ∧ .sent k r' ∉ l₂ := by
  have hbefore : ∀ {l₁ l₂ : List (Event ρ β γ)} {r : ρ}, l = l₁ ++ .sent k r :: l₂ →
      ∀ r', .sent k r' ∉ l₁ := by
    intro l₁ l₂ r hs r' hmem
    obtain ⟨n', p', h'⟩ := h.upto hs
    obtain ⟨rfl, -, h₁⟩ := h'.concat_sent
    rcases h₁.sent_bound hmem with hk | ⟨-, hp⟩
    · omega
    · exact hp rfl
  intro r'
  refine ⟨hbefore hs r', fun hmem => ?_⟩
  obtain ⟨m₁, m₂, rfl⟩ := List.append_of_mem hmem
  -- seen from the later of the two, the earlier one is in the way
  have hlater : l = (l₁ ++ .sent k r :: m₁) ++ .sent k r' :: m₂ := by
    rw [hs, List.append_assoc, List.cons_append]
  exact hbefore hlater r (List.mem_append_right _ (List.mem_cons_self ..))

end Trace

end Exchange
