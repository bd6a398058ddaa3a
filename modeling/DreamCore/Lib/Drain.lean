import Mathlib.Data.List.Basic

/-!
# Draining a queue over an acknowledged channel

A queue of updates is applied to a store that only answers later. The sender
keeps the front of the queue until the answer is back: it sends the front, the
store performs it some time after, and only the answer takes it off the queue.

Between the last two moments the update is both in the store and still queued,
so whoever applies the queue on top of the store applies it twice. That is
harmless exactly when an update applied twice is the update applied once.
-/

namespace Drain

variable {ι σ : Type*}

/-- Where the front of the queue stands. -/
inductive Phase where
  /-- Nothing is under way. -/
  | idle
  /-- The front has been sent and the store has not performed it. -/
  | sent
  /-- The front is in the store, its answer is on the way back. -/
  | performed

/-- A queue, oldest first, the phase of its front, and the store behind it. -/
structure State (ι σ : Type*) where
  queue : List ι
  phase : Phase
  store : σ

/-- **What a drain that began with the store `s₀` and was handed the updates `history` may have
come to.** -/
inductive Reaches (act : σ → ι → σ) (s₀ : σ) : List ι → State ι σ → Prop where
  | start : Reaches act s₀ [] ⟨[], .idle, s₀⟩
  | push {history : List ι} {q : List ι} {p : Phase} {s : σ} (x : ι) :
      Reaches act s₀ history ⟨q, p, s⟩ → Reaches act s₀ (history ++ [x]) ⟨q ++ [x], p, s⟩
  | send {history : List ι} {x : ι} {q : List ι} {s : σ} :
      Reaches act s₀ history ⟨x :: q, .idle, s⟩ → Reaches act s₀ history ⟨x :: q, .sent, s⟩
  | perform {history : List ι} {x : ι} {q : List ι} {s : σ} :
      Reaches act s₀ history ⟨x :: q, .sent, s⟩ →
      Reaches act s₀ history ⟨x :: q, .performed, act s x⟩
  | pop {history : List ι} {x : ι} {q : List ι} {s : σ} :
      Reaches act s₀ history ⟨x :: q, .performed, s⟩ → Reaches act s₀ history ⟨q, .idle, s⟩

variable {act : σ → ι → σ} {s₀ : σ} {history : List ι} {d : State ι σ}

/-- Any number of pushes. -/
theorem Reaches.push_list {q : List ι} {p : Phase} {s : σ} (h : Reaches act s₀ history ⟨q, p, s⟩)
    (l : List ι) : Reaches act s₀ (history ++ l) ⟨q ++ l, p, s⟩ := by
  induction l generalizing history q with
  | nil =>
    rw [List.append_nil, List.append_nil]
    exact h
  | cons x l ih =>
    have hx := ih (h.push x)
    rwa [List.append_assoc, List.append_assoc] at hx

/-- What the store holds, given the updates `done` that have left the queue. -/
def State.Holds (act : σ → ι → σ) (s₀ : σ) (done : List ι) (d : State ι σ) : Prop :=
  match d.phase with
  | .idle | .sent => d.store = done.foldl act s₀
  | .performed => ∃ x q, d.queue = x :: q ∧ d.store = (done ++ [x]).foldl act s₀

/-- **The history is what has left the queue and what is still in it**, and the store holds the
former, and the front as soon as it is performed. -/
theorem Reaches.split (h : Reaches act s₀ history d) :
    ∃ done, history = done ++ d.queue ∧ d.Holds act s₀ done := by
  induction h with
  | start => exact ⟨[], rfl, rfl⟩
  | @push history q p s x _ ih =>
    obtain ⟨done, hh, hd⟩ := ih
    refine ⟨done, by rw [hh, List.append_assoc], ?_⟩
    cases p with
    | idle => exact hd
    | sent => exact hd
    | performed =>
      obtain ⟨y, q', hq, hs⟩ := hd
      exact ⟨y, q' ++ [x], congrArg (· ++ [x]) hq, hs⟩
  | send _ ih => exact ih
  | @perform history x q s _ ih =>
    obtain ⟨done, hh, hd⟩ := ih
    have hs : s = done.foldl act s₀ := hd
    exact ⟨done, hh, x, q, rfl, by rw [List.foldl_append, ← hs]; rfl⟩
  | @pop history x q s _ ih =>
    obtain ⟨done, hh, y, q', hq, hs⟩ := ih
    obtain ⟨rfl, rfl⟩ := List.cons.inj hq
    exact ⟨done ++ [x], by rw [hh, List.append_assoc]; rfl, hs⟩

/-- **The store always holds a prefix of the history**, and at least what has left the queue. -/
theorem Reaches.store_prefix (h : Reaches act s₀ history d) :
    ∃ n ≤ history.length, history.length ≤ n + d.queue.length
      ∧ d.store = (history.take n).foldl act s₀ := by
  obtain ⟨done, rfl, hd⟩ := h.split
  have hdone : d.store = done.foldl act s₀ →
      ∃ n ≤ (done ++ d.queue).length, (done ++ d.queue).length ≤ n + d.queue.length
        ∧ d.store = ((done ++ d.queue).take n).foldl act s₀ := by
    intro hs
    refine ⟨done.length, by simp, by simp, ?_⟩
    rw [List.take_left]
    exact hs
  unfold State.Holds at hd
  split at hd
  · exact hdone hd
  · exact hdone hd
  · obtain ⟨x, q, hq, hs⟩ := hd
    refine ⟨(done ++ [x]).length, by rw [hq]; simp, ?_, ?_⟩
    · rw [hq]
      simp only [List.length_append, List.length_cons, List.length_nil]
      omega
    · rw [hq, show done ++ x :: q = (done ++ [x]) ++ q by simp, List.take_left]
      exact hs

/-- **The store `s` has come at least as far as the first `n` updates**, and no update is missing
in between. -/
def Since (act : σ → ι → σ) (s₀ : σ) (history : List ι) (n : Nat) (s : σ) : Prop :=
  ∃ k, n ≤ k ∧ k ≤ history.length ∧ s = (history.take k).foldl act s₀

/-- What a store has come to does not depend on what comes after. -/
theorem Since.append {n : Nat} {s : σ} (h : Since act s₀ history n s) (l : List ι) :
    Since act s₀ (history ++ l) n s := by
  obtain ⟨k, hn, hk, hs⟩ := h
  refine ⟨k, hn, ?_, ?_⟩
  · rw [List.length_append]
    omega
  · rw [List.take_append_of_le_length hk]
    exact hs

/-- What such a store holds on top of the first updates is a prefix of the others. -/
theorem Since.later {older newer : List ι} {s : σ}
    (h : Since act s₀ (older ++ newer) older.length s) :
    ∃ later, later <+: newer ∧ s = (older ++ later).foldl act s₀ := by
  obtain ⟨k, hn, -, hs⟩ := h
  refine ⟨newer.take (k - older.length), List.take_prefix .., ?_⟩
  rw [List.take_append, List.take_of_length_le hn] at hs
  exact hs

/-- **What is not queued any more is in the store.** -/
theorem Reaches.since (h : Reaches act s₀ history d) {n : Nat}
    (hn : n + d.queue.length ≤ history.length) : Since act s₀ history n d.store := by
  obtain ⟨k, hk, hq, hs⟩ := h.store_prefix
  exact ⟨k, by omega, hk, hs⟩

/-- **Applying the queue on top of the store gives what applying the whole history gives**, when
an update applied twice is the update applied once. -/
theorem Reaches.queue_foldl (hact : ∀ s x, act (act s x) x = act s x)
    (h : Reaches act s₀ history d) : d.queue.foldl act d.store = history.foldl act s₀ := by
  obtain ⟨done, rfl, hd⟩ := h.split
  rw [List.foldl_append]
  unfold State.Holds at hd
  split at hd
  · rw [hd]
  · rw [hd]
  · obtain ⟨x, q, hq, hs⟩ := hd
    rw [hs, hq, List.foldl_append]
    exact congrArg (q.foldl act) (hact _ x)

/-- The same with the update under way applied once more in front, as who sees both the channel
and the queue would do. -/
theorem Reaches.sent_foldl (hact : ∀ s x, act (act s x) x = act s x)
    (h : Reaches act s₀ history d) {x : ι} {q : List ι} (hq : d.queue = x :: q) :
    d.queue.foldl act (act d.store x) = history.foldl act s₀ := by
  rw [← h.queue_foldl hact, hq]
  exact congrArg (q.foldl act) (hact _ x)

end Drain
