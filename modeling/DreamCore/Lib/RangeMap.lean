import Mathlib.Data.List.Basic
import Mathlib.Data.Set.Basic
import Mathlib.Order.CompletePartialOrder
import Mathlib.Order.Disjoint
import Mathlib.Data.Set.Lattice

/-!
# A map of ranges

Items claim sets of addresses, one after the other; a map refuses an item, or
appends it to those it has accepted, and a lookup walks over the accepted items.
The map is in order when no two items claim one address and the lookup finds
exactly the item that claims an address.

Whether a sequence of requests keeps a map in order is a question about one
request at a time: `always_iff` turns an equivalence for one step into one for
runs.
-/

namespace RangeMap

variable {α β : Type}

/-- No two items claim one address. -/
def Apart (cover : α → Set β) (l : List α) : Prop :=
  l.Pairwise fun s t => Disjoint (cover s) (cover t)

variable {cover : α → Set β} {l : List α} {b : β}

theorem Apart.unique (h : Apart cover l) {i j : Nat} {s t : α} (hi : l[i]? = some s)
    (hj : l[j]? = some t) (hs : b ∈ cover s) (ht : b ∈ cover t) : i = j := by
  have hlt (i j : Nat) (s t : α) (hi : l[i]? = some s) (hj : l[j]? = some t) (hij : i < j)
      (hs : b ∈ cover s) (ht : b ∈ cover t) : False := by
    obtain ⟨hi', rfl⟩ := List.getElem?_eq_some_iff.mp hi
    obtain ⟨hj', rfl⟩ := List.getElem?_eq_some_iff.mp hj
    exact Set.disjoint_left.mp (List.pairwise_iff_getElem.mp h i j hi' hj' hij) hs ht
  rcases Nat.lt_trichotomy i j with hij | hij | hij
  · exact (hlt i j s t hi hj hij hs ht).elim
  · exact hij
  · exact (hlt j i t s hj hi hij ht hs).elim

theorem apart_snoc {a : α} :
    Apart cover (l ++ [a]) ↔ Apart cover l ∧ ∀ s ∈ l, Disjoint (cover s) (cover a) := by
  unfold Apart
  rw [List.pairwise_append]
  simp

/-- The lookup finds an item exactly when it claims the address, and has what is asked for. -/
def Finds (test : α → β → Bool) (cover : α → Set β) (l : List α) : Prop :=
  ∀ b i, l.findIdx? (test · b) = some i ↔ ∃ s, l[i]? = some s ∧ b ∈ cover s

variable {test : α → β → Bool}

/-- **A first-match lookup over items that are apart.** -/
theorem finds_of_apart {wide : α → Set β} (hapart : Apart wide l)
    (hsub : ∀ s, cover s ⊆ wide s) (htest : ∀ s ∈ l, ∀ b, test s b = true ↔ b ∈ cover s) :
    Finds test cover l := by
  intro b i
  rw [List.findIdx?_eq_some_iff_getElem]
  constructor
  · rintro ⟨hi, hhere, -⟩
    exact ⟨l[i], List.getElem?_eq_getElem hi, (htest _ (List.getElem_mem hi) b).mp hhere⟩
  · rintro ⟨s, hs, hb⟩
    obtain ⟨hi, rfl⟩ := List.getElem?_eq_some_iff.mp hs
    refine ⟨hi, (htest _ (List.getElem_mem hi) b).mpr hb, fun j hji hj => ?_⟩
    have hjl : j < l.length := Nat.lt_trans hji hi
    have hbj := (htest _ (List.getElem_mem hjl) b).mp hj
    have hij := hapart.unique hs (List.getElem?_eq_getElem hjl) (hsub _ hb) (hsub _ hbj)
    omega

/-- A claimed address passes the test of its item. -/
theorem Finds.passes (h : Finds test cover l) {s : α} (hs : s ∈ l) (hb : b ∈ cover s) :
    test s b = true := by
  obtain ⟨i, hi, rfl⟩ := List.getElem_of_mem hs
  have hfound := (h b i).mpr ⟨_, List.getElem?_eq_getElem hi, hb⟩
  exact (List.findIdx?_eq_some_iff_getElem.mp hfound).2.1

/-- An address that passes the test of an item is claimed, by that item or another one. -/
theorem Finds.claimed (h : Finds test cover l) {s : α} (hs : s ∈ l) (hb : test s b = true) :
    ∃ t ∈ l, b ∈ cover t := by
  cases hfind : l.findIdx? (test · b) with
  | none => simp [List.findIdx?_eq_none_iff.mp hfind s hs] at hb
  | some i =>
      obtain ⟨t, ht, hbt⟩ := (h b i).mp hfind
      exact ⟨t, List.mem_of_getElem? ht, hbt⟩

/-! ## Runs of requests -/

/-- The items after a request: a refused one changes nothing. -/
def next (refuses : List α → α → Bool) (l : List α) (a : α) : List α :=
  if refuses l a then l else l ++ [a]

/-- In every state of a run, the next request has the property. -/
def Always (refuses : List α → α → Bool) (P : List α → α → Prop) : List α → List α → Prop
  | _, [] => True
  | l, a :: as => P l a ∧ Always refuses P (next refuses l a) as

/-- **An equivalence for one request, under what the property leaves behind, is one for runs.** -/
theorem always_iff {refuses : List α → α → Bool} {P Q : List α → α → Prop} {Inv : List α → Prop}
    (hiff : ∀ l a, Inv l → (P l a ↔ Q l a))
    (hstep : ∀ l a, Inv l → P l a → Inv (next refuses l a)) :
    ∀ (reqs l : List α), Inv l → (Always refuses P l reqs ↔ Always refuses Q l reqs) := by
  intro reqs
  induction reqs with
  | nil => exact fun _ _ => Iff.rfl
  | cons a reqs ih =>
      intro l hinv
      constructor
      · rintro ⟨hp, hrest⟩
        exact ⟨(hiff l a hinv).mp hp, (ih _ (hstep l a hinv hp)).mp hrest⟩
      · rintro ⟨hq, hrest⟩
        have hp := (hiff l a hinv).mpr hq
        exact ⟨hp, (ih _ (hstep l a hinv hp)).mpr hrest⟩

end RangeMap
