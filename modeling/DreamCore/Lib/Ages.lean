import DreamCore.Lib.Pick
import DreamCore.Lib.Ring

/-!
# Ages in a ring

What is in flight lies within one ring of a base that moves on. The comparison of
two positions does not know the base; it is right for any base from which both
are less than a ring away. So an order that was right once stays right for as
long as both positions are in flight, and what lies between two positions in
flight is in flight itself.
-/

namespace Ring

namespace Ptr

variable {n base base' : Nat} {p q r : Ptr}

/-- The position lies less than a ring after counter `base`. -/
def Within (n base : Nat) (p : Ptr) : Prop := ∃ d, d < n ∧ p = fold n (base + d)

/-- `p` comes before `q` in the ring that begins at counter `base`. -/
def Before (n base : Nat) (p q : Ptr) : Prop :=
  ∃ d e, d < e ∧ e < n ∧ p = fold n (base + d) ∧ q = fold n (base + e)

theorem Before.left (h : Before n base p q) : Within n base p := by
  obtain ⟨d, e, hde, he, hp, -⟩ := h
  exact ⟨d, by omega, hp⟩

theorem Before.right (h : Before n base p q) : Within n base q := by
  obtain ⟨d, e, -, he, -, hq⟩ := h
  exact ⟨e, he, hq⟩

theorem younger_add {d e : Nat} (hd : d < n) (he : e < n) :
    (fold n (base + d)).younger (fold n (base + e)) = true ↔ e < d := by
  rw [younger_fold (by omega) (by omega) (by omega)]
  omega

/-- **The comparison is the order in the ring.** -/
theorem before_iff (hp : Within n base p) (hq : Within n base q) :
    Before n base p q ↔ q.younger p = true := by
  constructor
  · rintro ⟨d, e, hde, he, rfl, rfl⟩
    exact (younger_add he (by omega)).mpr hde
  · intro h
    obtain ⟨d, hd, rfl⟩ := hp
    obtain ⟨e, he, rfl⟩ := hq
    exact ⟨d, e, (younger_add he hd).mp h, he, rfl, rfl⟩

theorem Before.younger (h : Before n base p q) : q.younger p = true :=
  (before_iff h.left h.right).mp h

/-- Not being younger is transitive. -/
theorem not_younger_trans (hp : Within n base p) (hq : Within n base q) (hr : Within n base r)
    (hpq : p.younger q = false) (hqr : q.younger r = false) : p.younger r = false := by
  obtain ⟨d, hd, rfl⟩ := hp
  obtain ⟨e, he, rfl⟩ := hq
  obtain ⟨f, hf, rfl⟩ := hr
  rw [Bool.eq_false_iff, Ne, younger_add (by omega) (by omega)] at *
  omega

/-- What is at least as young as something younger is younger itself. -/
theorem younger_of_le (hp : Within n base p) (hq : Within n base q) (hr : Within n base r)
    (hqp : q.younger p = false) (hqr : q.younger r = true) : p.younger r = true := by
  by_contra h
  rw [not_younger_trans hq hp hr hqp (Bool.eq_false_iff.mpr h)] at hqr
  cases hqr

/-! ## When the base moves -/

theorem fold_add_two (hn : 0 < n) (k : Nat) : fold n (k + 2 * n) = fold n k := by
  have hid : (k + 2 * n) % n = k % n := Nat.add_mul_mod_self_right k 2 n
  have hdiv : (k + 2 * n) / n = k / n + 2 := Nat.add_mul_div_right k 2 hn
  rw [fold, fold, hid, hdiv, Nat.add_mod_right]

/-- Two counters of one position stay so as both advance. -/
theorem fold_shift (hn : 0 < n) {a b : Nat} (h : fold n a = fold n b) (i : Nat) :
    fold n (a + i) = fold n (b + i) := by
  induction i with
  | zero => exact h
  | succ i ih => rw [← Nat.add_assoc, ← next_fold hn, ih, next_fold hn, Nat.add_assoc]

/-- Cells are read from a position, whichever counter stands for it. -/
theorem slots_shift (hn : 0 < n) {α : Type} (buf : Nat → α) {a b : Nat}
    (h : fold n a = fold n b) (d : Nat) : slots n buf a (a + d) = slots n buf b (b + d) := by
  rw [slots, slots, Nat.add_sub_cancel_left, Nat.add_sub_cancel_left, List.range'_eq_map_range,
    List.range'_eq_map_range, List.map_map, List.map_map]
  refine List.map_congr_left fun i _ => ?_
  exact congrArg buf (congrArg Ptr.id (fold_shift hn h i))

/-- A slot and a stage always are those of some counter. -/
theorem exists_fold {p : Ptr} (hp : p.id < n) : ∃ k, p = fold n k := by
  obtain ⟨id, stage⟩ := p
  cases stage with
  | false => exact ⟨id, by rw [fold, Nat.mod_eq_of_lt hp, Nat.div_eq_of_lt hp]; rfl⟩
  | true =>
      have hn : 0 < n := Nat.lt_of_le_of_lt (Nat.zero_le _) hp
      refine ⟨id + n, ?_⟩
      rw [fold, Nat.add_mod_right, Nat.mod_eq_of_lt hp, Nat.add_div_right _ hn,
        Nat.div_eq_of_lt hp]
      rfl

/-- Counters of one position that are less than two rings apart are equal. -/
theorem fold_inj_two {a b : Nat} (hab : a < b + 2 * n) (hba : b < a + 2 * n)
    (h : fold n a = fold n b) : a = b := by
  have hn : 0 < n := by omega
  by_cases hfar : b + n < a
  · have := fold_inj hn (by omega : a ≤ b + 2 * n) (by omega) (by rw [h, fold_add_two hn])
    omega
  · by_cases hfar' : a + n < b
    · have := fold_inj hn (by omega : b ≤ a + 2 * n) (by omega) (by rw [← h, fold_add_two hn])
      omega
    · rcases Nat.le_total a b with hle | hle
      · exact fold_inj hn hle (by omega) h
      · exact (fold_inj hn hle (by omega) h.symm).symm

/-- **What lies between two positions that are still in flight is still in flight.** -/
theorem Within.between (hp : Within n base p) (hq : Within n base q) (hr : Within n base r)
    (hpq : p.younger q = false) (hqr : q.younger r = false) (hp' : Within n base' p)
    (hr' : Within n base' r) : Within n base' q := by
  obtain ⟨d, hd, rfl⟩ := hp
  obtain ⟨e, he, rfl⟩ := hq
  obtain ⟨f, hf, rfl⟩ := hr
  obtain ⟨d', hd', hpd⟩ := hp'
  obtain ⟨f', hf', hrf⟩ := hr'
  have hn : 0 < n := by omega
  rw [Bool.eq_false_iff, Ne, younger_add (by omega) (by omega)] at hpq hqr
  have hmove (i : Nat) : fold n (base + (d + i)) = fold n (base' + (d' + i)) := by
    rw [← Nat.add_assoc, ← Nat.add_assoc]
    exact fold_shift hn hpd i
  -- the distance between the two is the same from either base
  have hlast : base' + (d' + (f - d)) = base' + f' := by
    refine fold_inj_two (n := n) (by omega) (by omega) ?_
    rw [← hmove, ← hrf]
    congr 2
    omega
  refine ⟨d' + (e - d), by omega, ?_⟩
  rw [← hmove]
  congr 2
  omega

/-! ## Searching by age -/

variable {α : Type} {f : α → Ptr} {c : α → Bool} {l : List α} {a : α}

/-- **The search that keeps the older one** ends with a candidate that none is older than. -/
theorem pick_oldest (h : ∀ a ∈ l, c a = true → (f a).Within n base) :
    (∀ a, Pick.pick (fun a b => (f b).younger (f a)) c l = some a →
        ∀ b ∈ l, c b = true → (f a).younger (f b) = false)
      ∧ (Pick.pick (fun a b => (f b).younger (f a)) c l = none → ∀ a ∈ l, c a = false) :=
  Pick.pick_unbeaten
    { asymm := fun _ _ _ _ _ _ hab => younger_asymm hab
      trans := fun a ha hca b hb hcb d hd hcd hab hbd =>
        not_younger_trans (h d hd hcd) (h b hb hcb) (h a ha hca) hbd hab }

/-- **The search that keeps the younger one** ends with a candidate that none is younger than. -/
theorem pick_youngest (h : ∀ a ∈ l, c a = true → (f a).Within n base) :
    (∀ a, Pick.pick (fun a b => (f a).younger (f b)) c l = some a →
        ∀ b ∈ l, c b = true → (f b).younger (f a) = false)
      ∧ (Pick.pick (fun a b => (f a).younger (f b)) c l = none → ∀ a ∈ l, c a = false) :=
  Pick.pick_unbeaten
    { asymm := fun _ _ _ _ _ _ hab => younger_asymm hab
      trans := fun a ha hca b hb hcb d hd hcd hab hbd =>
        not_younger_trans (h a ha hca) (h b hb hcb) (h d hd hcd) hab hbd }

end Ptr

end Ring
