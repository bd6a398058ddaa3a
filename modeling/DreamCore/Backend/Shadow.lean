import DreamCore.Backend.World
import DreamCore.Lib.Window

/-!
# The shadow of the core

Between the last retired instruction and the last renamed one, the core is a
window of speculative steps. What a step moves is small: one counter for every
ring it takes an entry of, and the map of the register it writes. `Shadow` is
that state and `advance` the effect of one instruction on it, in terms that know
nothing of rings, valid bits or checkpoints.

The base of the window is what commit would go back to, its tip is where rename
goes on, and a checkpoint is worth what the tip was when it was taken.
-/

namespace DreamCore

open Ring

/-- An architectural register that is renamed. -/
def IsReg (a : Nat) : Prop := 0 < a ∧ a < archRegNum

/-- How far every ring has been filled, and where every architectural register lives. -/
structure Shadow where
  rob : Nat
  free : Nat
  ck : Nat
  lq : Nat
  sb : Nat
  map : Nat → Nat

namespace OpInfo

/-- The instruction was given a physical register. -/
def allocates (i : OpInfo) : Bool := i.valid && i.needRename

/-- The instruction was given a checkpoint. -/
def hasCheckpoint (i : OpInfo) : Bool := i.branchPredictorInfoPack.checkpointIdValid

end OpInfo

/-- The effect of renaming one instruction. -/
def advance (f : Flight) (σ : Shadow) : Shadow where
  rob := σ.rob + 1
  free := σ.free + f.info.allocates.toNat
  ck := σ.ck + f.info.hasCheckpoint.toNat
  lq := σ.lq + f.info.takesLoadQueue.toNat
  sb := σ.sb + f.info.takesStoreBuffer.toNat
  map := if f.info.allocates then Function.update σ.map f.info.rd f.info.rdPhy else σ.map

/-- The tip of a window of instructions in flight. -/
abbrev tip (base : Shadow) (fl : List Flight) : Shadow := Window.tip advance base fl

variable {base : Shadow} {fl : List Flight}

theorem tip_rob (base : Shadow) (fl : List Flight) :
    (tip base fl).rob = base.rob + fl.length := by
  induction fl generalizing base with
  | nil => rfl
  | cons f fl ih =>
    rw [tip, Window.tip_cons, ← tip, ih]
    simp only [advance, List.length_cons]
    omega

/-- **What the young end counts.** -/
theorem tip_count {c : Shadow → Nat} (takes : Flight → Bool)
    (hstep : ∀ f σ, c (advance f σ) = c σ + (takes f).toNat) (base : Shadow) (fl : List Flight) :
    c (tip base fl) = c base + fl.countP takes := by
  induction fl using List.reverseRecOn with
  | nil => rfl
  | append_singleton fl f ih =>
    rw [tip, Window.tip_snoc, hstep, ← tip, ih, List.countP_append, List.countP_singleton,
      Nat.add_assoc]
    cases takes f <;> rfl

/-- **The slots of a ring between the base and the tip** are those of the instructions that took
one, oldest first. -/
theorem slots_tip {n : Nat} {c : Shadow → Nat} {P : Shadow → Flight → Prop} {base : Shadow}
    {fl : List Flight} (takes : Flight → Bool) (slot : Flight → Nat)
    (hstep : ∀ f σ, c (advance f σ) = c σ + (takes f).toNat)
    (hslot : ∀ σ f, P σ f → takes f = true → slot f = c σ % n)
    (h : Window.EachAt advance P base fl) :
    slots n id (c base) (c (tip base fl)) = (fl.filter takes).map slot := by
  induction fl using List.reverseRecOn with
  | nil => simp
  | append_singleton fl f ih =>
    obtain ⟨hfl, hf⟩ := Window.eachAt_snoc.mp h
    rw [tip, Window.tip_snoc, hstep, List.filter_append, List.map_append, ← ih hfl]
    cases hc : takes f with
    | false => simp [hc]
    | true =>
      have hle : c base ≤ c (tip base fl) :=
        Window.le_tip (fun f σ => by rw [hstep]; exact Nat.le_add_right _ _) base fl
      rw [Bool.toNat_true, slots_succ_right _ hle]
      simp [hc, hslot _ _ hf hc]

theorem advance_free_le (f : Flight) (σ : Shadow) : σ.free ≤ (advance f σ).free :=
  Nat.le_add_right _ _

theorem free_le_tip (base : Shadow) (fl : List Flight) : base.free ≤ (tip base fl).free :=
  Window.le_tip advance_free_le base fl

theorem ck_le_tip (base : Shadow) (fl : List Flight) : base.ck ≤ (tip base fl).ck :=
  Window.le_tip (f := Shadow.ck) (fun _ _ => Nat.le_add_right _ _) base fl

theorem lq_le_tip (base : Shadow) (fl : List Flight) : base.lq ≤ (tip base fl).lq :=
  Window.le_tip (f := Shadow.lq) (fun _ _ => Nat.le_add_right _ _) base fl

theorem sb_le_tip (base : Shadow) (fl : List Flight) : base.sb ≤ (tip base fl).sb :=
  Window.le_tip (f := Shadow.sb) (fun _ _ => Nat.le_add_right _ _) base fl

/-! ## Tables -/

/-- **A RAT table holds the map `m`**: its valid registers are the image of `m`, and each
knows the architectural register it stands for. -/
structure Represents (t : RatTable) (m : Nat → Nat) : Prop where
  valid : ∀ p, p < phyRegNum → (t.phyMapTableValid p = true ↔ ∃ a, IsReg a ∧ m a = p)
  arch : ∀ a, IsReg a → t.phyMapTable (m a) = a
  lt : ∀ a, IsReg a → m a < phyRegNum

namespace Represents

variable {t t' : RatTable} {m : Nat → Nat} {a p : Nat}

/-- Two registers never share a home. -/
theorem inj (h : Represents t m) {b : Nat} (ha : IsReg a) (hb : IsReg b) (he : m a = m b) :
    a = b := by
  rw [← h.arch a ha, ← h.arch b hb, he]

theorem maps_iff (h : Represents t m) (hp : p < phyRegNum) (ha : IsReg a) :
    t.maps a p = true ↔ m a = p := by
  rw [RatTable.maps_iff, h.valid p hp]
  constructor
  · rintro ⟨⟨b, hb, rfl⟩, hm⟩
    rw [h.arch b hb] at hm
    rw [hm]
  · rintro rfl
    exact ⟨⟨a, ha, rfl⟩, h.arch a ha⟩

/-- **A lookup answers with the map.** -/
theorem lookup (h : Represents t m) (hl : t.producerGetPhyId a = some (some p)) :
    IsReg a ∧ m a = p := by
  obtain ⟨ha, hp, hm, -⟩ := RatTable.producerGetPhyId_eq_some hl
  exact ⟨ha, (h.maps_iff hp ha).mp hm⟩

/-- **Mapping a register updates the map.** -/
theorem setMap (h : Represents t m) (hs : t.setMap false a p = some t') :
    IsReg a ∧ (∀ b, IsReg b → m b ≠ p) ∧ Represents t' (Function.update m a p) := by
  obtain ⟨old, hl, hp, hv, hmap, hval⟩ := RatTable.setMap_eq_some hs
  obtain ⟨ha, hold⟩ := h.lookup hl
  have hfresh : ∀ b, IsReg b → m b ≠ p := by
    intro b hb he
    have := (h.valid p hp).mpr ⟨b, hb, he⟩
    rw [hv] at this
    cases this
  refine ⟨ha, hfresh, ⟨fun q hq => ?_, fun b hb => ?_, fun b hb => ?_⟩⟩
  · rw [hval]
    by_cases hqo : q = old
    · subst hqo
      simp only [Function.update_self, Bool.false_eq_true, false_iff]
      rintro ⟨b, hb, he⟩
      by_cases hba : b = a
      · subst hba
        rw [Function.update_self] at he
        exact hfresh b hb (by rw [hold, he])
      · rw [Function.update_of_ne hba] at he
        exact hba (h.inj hb ha (by rw [he, hold]))
    · rw [Function.update_of_ne hqo]
      by_cases hqp : q = p
      · subst hqp
        simp only [Function.update_self, true_iff]
        exact ⟨a, ha, Function.update_self ..⟩
      · rw [Function.update_of_ne hqp, h.valid q hq]
        constructor
        · rintro ⟨b, hb, he⟩
          have hba : b ≠ a := by
            rintro rfl
            exact hqo (by rw [← he, hold])
          exact ⟨b, hb, by rw [Function.update_of_ne hba, he]⟩
        · rintro ⟨b, hb, he⟩
          by_cases hba : b = a
          · subst hba
            rw [Function.update_self] at he
            exact absurd he.symm hqp
          · exact ⟨b, hb, by rwa [Function.update_of_ne hba] at he⟩
  · rw [hmap]
    by_cases hba : b = a
    · subst hba; rw [Function.update_self, Function.update_self]
    · rw [Function.update_of_ne hba, Function.update_of_ne (hfresh b hb), h.arch b hb]
  · by_cases hba : b = a
    · subst hba; rw [Function.update_self]; exact hp
    · rw [Function.update_of_ne hba]; exact h.lt b hb

end Represents

/-- The homes of the architectural registers. -/
def homes (m : Nat → Nat) : List Nat := (List.range' 1 (archRegNum - 1)).map m

theorem mem_homes {m : Nat → Nat} {p : Nat} : p ∈ homes m ↔ ∃ a, IsReg a ∧ m a = p := by
  simp only [homes, List.mem_map, List.mem_range'_1, IsReg, archRegNum]
  constructor
  · rintro ⟨a, ⟨h1, h2⟩, rfl⟩; exact ⟨a, ⟨by omega, by omega⟩, rfl⟩
  · rintro ⟨a, ⟨h1, h2⟩, rfl⟩; exact ⟨a, ⟨by omega, by omega⟩, rfl⟩

end DreamCore
