import DreamCore.Component.LoadStoreQueue
import DreamCore.Lib.Bytes

/-!
# The overlap tests

Three buffers ask the same question in four forms: do a load and a store share a
byte? The store buffer asks it once to find a store whose data is missing and
once to find the bytes to copy; the load queue asks it for a load that ran ahead
of a store; the retired store buffer asks it with comparisons of its own.

All of them add the size to the address in 32 bits, and an access that ends with
the last byte of the address space ends, for them, at zero. Only the copying form
of the store buffer compares with the last byte instead of the end.
-/

namespace DreamCore

open Bytes

/-- A naturally aligned access. -/
structure Access where
  addr : Word
  size : Word
  size_ok : size = 1 ∨ size = 2 ∨ size = 4
  aligned : addr.toNat % size.toNat = 0

namespace Access

/-- The access reads or writes byte `i`. -/
def Touches (a : Access) (i : Nat) : Prop := a.addr.toNat ≤ i ∧ i < a.addr.toNat + a.size.toNat

/-- Some byte belongs to both accesses. -/
def Shares (a b : Access) : Prop := ∃ i, a.Touches i ∧ b.Touches i

/-- The access ends with the last byte of the address space. -/
def AtTop (a : Access) : Prop := a.Touches 0xffffffff

end Access

/-- What a copy moves: `len` bytes, the first of them byte `skip` of the store and byte `first`
of the load. -/
structure CopyRange where
  first : Nat
  len : Nat
  skip : Nat
deriving DecidableEq

/-- The range the store buffer copies into the load `[addr, addr + size)`. -/
def storeRange (addr size itemAddr itemSize : Word) : Option CopyRange :=
  if itemAddr ≥ addr ∧ itemAddr ≤ addr + size - 1 then
    some ⟨(itemAddr - addr).toNat, (wordMin itemSize (addr + size - itemAddr)).toNat, 0⟩
  else if itemAddr < addr ∧ itemAddr + itemSize - 1 ≥ addr then
    some ⟨0, (wordMin size (itemAddr + itemSize - addr)).toNat, (addr - itemAddr).toNat⟩
  else none

/-- The range the retired store buffer copies. -/
def retiredRange (addr size itemAddr itemSize : Word) : Option CopyRange :=
  if itemAddr ≥ addr ∧ itemAddr < addr + size then
    some ⟨(itemAddr - addr).toNat, (wordMin itemSize (addr + size - itemAddr)).toNat, 0⟩
  else if itemAddr < addr ∧ itemAddr + itemSize > addr then
    some ⟨0, (wordMin size (itemAddr + itemSize - addr)).toNat, (addr - itemAddr).toNat⟩
  else none

/-- The bytes of a range, as a patch for the load. -/
def CopyRange.patch (r : CopyRange) (data : Word) : Patch := Patch.window r.first r.len r.skip data

/-- Every byte of the range belongs to both accesses, and is the same byte in both. -/
structure CopyRange.Inside (r : CopyRange) (load store : Access) : Prop where
  nonempty : 0 < r.len
  inLoad : r.first + r.len ≤ load.size.toNat
  inStore : r.skip + r.len ≤ store.size.toNat
  same : load.addr.toNat + r.first = store.addr.toNat + r.skip

/-- **The four tests say exactly whether a load and a store share a byte, and what is copied
belongs to both.** -/
structure Access.Exact (load store : Access) : Prop where
  /-- `store_buffer::get_feedback_value`, looking for missing data. -/
  unavailable : overlap store.addr store.size load.addr load.size = true ↔ load.Shares store
  /-- `load_queue::get_conflict_item`. -/
  conflict : overlap load.addr load.size store.addr store.size = true ↔ load.Shares store
  /-- `store_buffer::get_feedback_value`, looking for bytes to copy. -/
  forward : (storeRange load.addr load.size store.addr store.size).isSome = true
    ↔ load.Shares store
  /-- `retired_store_buffer::get_feedback_value`. -/
  retired : (retiredRange load.addr load.size store.addr store.size).isSome = true
    ↔ load.Shares store
  inside : ∀ r, storeRange load.addr load.size store.addr store.size = some r
      ∨ retiredRange load.addr load.size store.addr store.size = some r →
    r.Inside load store

/-! ## The tests on numbers -/

theorem wordMin_toNat (a b : Word) : (wordMin a b).toNat = min a.toNat b.toNat := by
  unfold wordMin
  split
  · rename_i h
    rw [BitVec.lt_def] at h
    omega
  · rename_i h
    rw [BitVec.lt_def] at h
    omega

theorem wordMax_toNat (a b : Word) : (wordMax a b).toNat = max a.toNat b.toNat := by
  unfold wordMax
  split
  · rename_i h
    rw [BitVec.lt_def] at h
    omega
  · rename_i h
    rw [BitVec.lt_def] at h
    omega

theorem overlap_iff (a s a' s' : Word) :
    overlap a s a' s' = true ↔
      max a.toNat a'.toNat < min ((a + s).toNat) ((a' + s').toNat) := by
  rw [overlap, decide_eq_true_eq, BitVec.lt_def, wordMax_toNat, wordMin_toNat]

/-- The range two accesses share, on numbers. -/
def sharedRange (addr size itemAddr itemSize : Nat) : Option CopyRange :=
  if addr ≤ itemAddr ∧ itemAddr < addr + size then
    some ⟨itemAddr - addr, min itemSize (addr + size - itemAddr), 0⟩
  else if itemAddr < addr ∧ addr < itemAddr + itemSize then
    some ⟨0, min size (itemAddr + itemSize - addr), addr - itemAddr⟩
  else none

/-- The bytes of an access from the other's first one on, also when it ends at the top. -/
theorem above_toNat (a s a' : Word) (hs : 0 < s.toNat)
    (h : a.toNat ≤ a'.toNat) (h' : a'.toNat < a.toNat + s.toNat) :
    (a' - a).toNat = a'.toNat - a.toNat
      ∧ (a + s - a').toNat = a.toNat + s.toNat - a'.toNat := by
  constructor
  · rw [BitVec.toNat_sub]
    omega
  · rw [BitVec.toNat_sub, BitVec.toNat_add]
    omega

section Ranges

variable {a s a' s' : Word} (hs : 0 < s.toNat) (hs' : 0 < s'.toNat)
  (hw : a.toNat + s.toNat ≤ 2 ^ 32) (hw' : a'.toNat + s'.toNat ≤ 2 ^ 32)

include hs hw in
/-- The last byte of an access that may end at the top. -/
theorem last_toNat : (a + s - 1).toNat = a.toNat + s.toNat - 1 := by
  rw [BitVec.toNat_sub, BitVec.toNat_add, show (1 : Word).toNat = 1 from rfl]
  omega

include hs hs' hw in
/-- **The store buffer finds exactly what is shared**, unless the store begins before the load
and wraps around. -/
theorem storeRange_eq (hw' : a'.toNat < a.toNat → a'.toNat + s'.toNat ≤ 2 ^ 32) :
    storeRange a s a' s' = sharedRange a.toNat s.toNat a'.toNat s'.toNat := by
  simp only [storeRange, sharedRange, ge_iff_le, BitVec.le_def, BitVec.lt_def, last_toNat hs hw,
    wordMin_toNat]
  by_cases h₁ : a.toNat ≤ a'.toNat ∧ a'.toNat < a.toNat + s.toNat
  · obtain ⟨hd, hl⟩ := above_toNat a s a' hs h₁.1 h₁.2
    rw [if_pos (by omega), if_pos h₁, hd, hl]
  · rw [if_neg (by omega), if_neg h₁]
    by_cases hlt : a'.toNat < a.toNat
    · rw [last_toNat hs' (hw' hlt)]
      by_cases h₂ : a'.toNat < a.toNat ∧ a.toNat < a'.toNat + s'.toNat
      · obtain ⟨hd, hl⟩ := above_toNat a' s' a hs' (by omega) h₂.2
        rw [if_pos (by omega), if_pos h₂, hd, hl]
      · rw [if_neg (by omega), if_neg h₂]
    · rw [if_neg (fun hc => hlt hc.1), if_neg (fun hc => hlt hc.1)]

include hs hs' in
/-- The retired store buffer finds exactly what is shared, unless whichever of the two begins
first ends at the top. -/
theorem retiredRange_eq (hw : a.toNat ≤ a'.toNat → a.toNat + s.toNat < 2 ^ 32)
    (hw' : a'.toNat < a.toNat → a'.toNat + s'.toNat < 2 ^ 32) :
    retiredRange a s a' s' = sharedRange a.toNat s.toNat a'.toNat s'.toNat := by
  simp only [retiredRange, sharedRange, ge_iff_le, gt_iff_lt, BitVec.le_def, BitVec.lt_def,
    wordMin_toNat]
  by_cases hle : a.toNat ≤ a'.toNat
  · have hend : (a + s).toNat = a.toNat + s.toNat := by
      rw [BitVec.toNat_add, Nat.mod_eq_of_lt (hw hle)]
    rw [hend]
    by_cases h₁ : a.toNat ≤ a'.toNat ∧ a'.toNat < a.toNat + s.toNat
    · obtain ⟨hd, hl⟩ := above_toNat a s a' hs h₁.1 h₁.2
      rw [if_pos h₁, if_pos h₁, hd, hl]
    · rw [if_neg h₁, if_neg h₁, if_neg (by omega), if_neg (by omega)]
  · have hlt : a'.toNat < a.toNat := by omega
    have hend : (a' + s').toNat = a'.toNat + s'.toNat := by
      rw [BitVec.toNat_add, Nat.mod_eq_of_lt (hw' hlt)]
    have h₁ : ¬ (a.toNat ≤ a'.toNat ∧ a'.toNat < (a + s).toNat) := fun hc => hle hc.1
    have h₁' : ¬ (a.toNat ≤ a'.toNat ∧ a'.toNat < a.toNat + s.toNat) := fun hc => hle hc.1
    rw [hend, if_neg h₁, if_neg h₁']
    by_cases h₂ : a'.toNat < a.toNat ∧ a.toNat < a'.toNat + s'.toNat
    · obtain ⟨hd, hl⟩ := above_toNat a' s' a hs' (by omega) h₂.2
      rw [if_pos h₂, if_pos h₂, hd, hl]
    · rw [if_neg h₂, if_neg h₂]

omit hw hw' in
include hs hs' in
/-- What the retired store buffer finds is shared. -/
theorem sharedRange_of_retiredRange {r : CopyRange} (h : retiredRange a s a' s' = some r) :
    sharedRange a.toNat s.toNat a'.toNat s'.toNat = some r := by
  simp only [retiredRange, ge_iff_le, gt_iff_lt, BitVec.le_def, BitVec.lt_def, BitVec.toNat_add] at h
  simp only [sharedRange]
  split at h
  · rename_i h₁
    have h₁' : a.toNat ≤ a'.toNat ∧ a'.toNat < a.toNat + s.toNat := by omega
    obtain ⟨hd, hl⟩ := above_toNat a s a' hs h₁'.1 h₁'.2
    rw [if_pos h₁', ← h, wordMin_toNat, hd, hl]
  · split at h
    · rename_i h₂
      have h₂' : a'.toNat < a.toNat ∧ a.toNat < a'.toNat + s'.toNat := by omega
      obtain ⟨hd, hl⟩ := above_toNat a' s' a hs' (by omega) h₂'.2
      rw [if_neg (by omega), if_pos h₂', ← h, wordMin_toNat, hd, hl]
    · cases h

end Ranges

/-! ## Aligned accesses -/

namespace Access

theorem size_bounds (a : Access) : 0 < a.size.toNat ∧ a.size.toNat ≤ 4 := by
  rcases a.size_ok with h | h | h <;> rw [h] <;> decide

/-- An aligned access does not wrap around. -/
theorem end_le (a : Access) : a.addr.toNat + a.size.toNat ≤ 2 ^ 32 := by
  have hlt := a.addr.isLt
  have hal := a.aligned
  have hsize : a.size.toNat = 1 ∨ a.size.toNat = 2 ∨ a.size.toNat = 4 := by
    rcases a.size_ok with h | h | h <;> rw [h] <;> decide
  rcases hsize with h | h | h <;> rw [h] at hal ⊢ <;> omega

theorem atTop_iff (a : Access) : a.AtTop ↔ a.addr.toNat + a.size.toNat = 2 ^ 32 := by
  have hlt := a.addr.isLt
  have hend := a.end_le
  unfold AtTop Touches
  omega

theorem shares_iff (a b : Access) :
    a.Shares b ↔ a.addr.toNat < b.addr.toNat + b.size.toNat
      ∧ b.addr.toNat < a.addr.toNat + a.size.toNat := by
  have ha := a.size_bounds.1
  have hb := b.size_bounds.1
  constructor
  · rintro ⟨i, ⟨h₁, h₂⟩, h₃, h₄⟩
    omega
  · intro h
    exact ⟨max a.addr.toNat b.addr.toNat, ⟨by omega, by omega⟩, by omega, by omega⟩

theorem sharedRange_isSome (load store : Access) :
    (sharedRange load.addr.toNat load.size.toNat store.addr.toNat store.size.toNat).isSome = true
      ↔ load.Shares store := by
  rw [shares_iff]
  simp only [sharedRange]
  split
  · simp only [Option.isSome_some, true_iff]
    have := store.size_bounds
    omega
  · split
    · simp only [Option.isSome_some, true_iff]
      have := load.size_bounds
      omega
    · simp only [Option.isSome_none, Bool.false_eq_true, false_iff]
      omega

/-- What is shared lies inside both. -/
theorem sharedRange_inside (load store : Access) {r : CopyRange}
    (h : sharedRange load.addr.toNat load.size.toNat store.addr.toNat store.size.toNat = some r) :
    r.Inside load store := by
  have hl := load.size_bounds
  have hs := store.size_bounds
  simp only [sharedRange] at h
  split at h
  · cases h
    refine ⟨?_, ?_, ?_, ?_⟩ <;> dsimp only <;> omega
  · split at h
    · cases h
      refine ⟨?_, ?_, ?_, ?_⟩ <;> dsimp only <;> omega
    · cases h

/-- An interval test that succeeds is right. -/
theorem shares_of_overlap (a b : Access) (h : overlap a.addr a.size b.addr b.size = true) :
    a.Shares b := by
  rw [overlap_iff, BitVec.toNat_add, BitVec.toNat_add] at h
  rw [shares_iff]
  omega

/-- An interval test below the top finds what is shared. -/
theorem overlap_of_shares (a b : Access) (h : a.Shares b) (ha : ¬ a.AtTop) (hb : ¬ b.AtTop) :
    overlap a.addr a.size b.addr b.size = true := by
  rw [atTop_iff] at ha hb
  rw [shares_iff] at h
  rw [overlap_iff, BitVec.toNat_add, BitVec.toNat_add]
  have := a.end_le
  have := b.end_le
  have := a.size_bounds
  have := b.size_bounds
  omega

/-- At the top the interval test finds nothing. -/
theorem not_overlap_of_atTop (a b : Access) (h : a.AtTop ∨ b.AtTop) :
    overlap a.addr a.size b.addr b.size = false := by
  rw [Bool.eq_false_iff]
  intro hc
  rw [overlap_iff, BitVec.toNat_add, BitVec.toNat_add] at hc
  rw [atTop_iff, atTop_iff] at h
  rcases h with h | h <;> rw [h] at hc <;> omega

theorem Shares.symm {a b : Access} (h : a.Shares b) : b.Shares a := by
  obtain ⟨i, ha, hb⟩ := h
  exact ⟨i, hb, ha⟩

end Access

/-- **The tests are exact but for accesses that meet at the top of the address space.** -/
theorem exact_iff (load store : Access) :
    load.Exact store ↔ ¬ (load.Shares store ∧ (load.AtTop ∨ store.AtTop)) := by
  have hl := load.size_bounds.1
  have hs := store.size_bounds.1
  have hle := load.end_le
  have hse := store.end_le
  have hstore := storeRange_eq hl hs hle fun _ => hse
  constructor
  · rintro hex ⟨hshare, htop⟩
    have h := hex.conflict.mpr hshare
    rw [Access.not_overlap_of_atTop load store htop] at h
    cases h
  · intro hne
    have hfree : load.Shares store → ¬ load.AtTop ∧ ¬ store.AtTop := by
      intro h
      exact ⟨fun hc => hne ⟨h, .inl hc⟩, fun hc => hne ⟨h, .inr hc⟩⟩
    refine ⟨⟨fun h => (Access.shares_of_overlap _ _ h).symm, fun h => ?_⟩,
      ⟨Access.shares_of_overlap _ _, fun h => ?_⟩, ?_, ⟨fun h => ?_, fun h => ?_⟩, ?_⟩
    · exact Access.overlap_of_shares _ _ h.symm (hfree h).2 (hfree h).1
    · exact Access.overlap_of_shares _ _ h (hfree h).1 (hfree h).2
    · rw [hstore]
      exact Access.sharedRange_isSome load store
    · obtain ⟨r, hr⟩ := Option.isSome_iff_exists.mp h
      rw [← Access.sharedRange_isSome, sharedRange_of_retiredRange hl hs hr]
      rfl
    · have htop := hfree h
      rw [Access.atTop_iff, Access.atTop_iff] at htop
      rw [retiredRange_eq hl hs (by omega) (by omega)]
      exact (Access.sharedRange_isSome load store).mpr h
    · intro r hr
      refine Access.sharedRange_inside load store ?_
      rw [hstore] at hr
      exact hr.elim id (sharedRange_of_retiredRange hl hs)

/-- The byte at the top of the address space, loaded and stored. -/
theorem not_exact_at_top : ¬ ∀ load store : Access, load.Exact store := by
  intro h
  let top : Access := ⟨0xffffffff, 1, .inl rfl, by decide⟩
  have hex := (h top top).conflict
  have hbyte : top.Touches 0xffffffff := ⟨Nat.le_refl _, Nat.lt_succ_self _⟩
  exact absurd (hex.mpr ⟨0xffffffff, hbyte, hbyte⟩) (by decide)

/-! ## What the merges do -/

/-- A mask of whole bytes, the way the buffers build it. -/
theorem bitMask_eq {len : Word} (h : len.toNat ≤ 4) :
    (if len <<< 3 = 32 then (0xffffffff : Word) else (1 <<< (len <<< 3).toNat) - 1)
      = lowMask 32 (8 * len.toNat) := by
  have hshift : (len <<< 3).toNat = 8 * len.toNat := by
    rw [BitVec.toNat_shiftLeft, Nat.shiftLeft_eq]
    omega
  by_cases hw : len <<< 3 = 32
  · have hlen : 8 * len.toNat = 32 := by rw [← hshift, hw]; rfl
    rw [if_pos hw, hlen]
    rfl
  · have hlen : 8 * len.toNat < 32 := by
      have hne : (len <<< 3).toNat ≠ 32 := fun hc => hw (BitVec.eq_of_toNat_eq (by rw [hc]; rfl))
      omega
    rw [if_neg hw, hshift]
    exact shiftLeft_sub_one hlen

/-- A shift by whole bytes. -/
theorem byteShift_toNat {n : Word} (h : n.toNat < 4) : (n <<< 3).toNat = 8 * n.toNat := by
  rw [BitVec.toNat_shiftLeft, Nat.shiftLeft_eq]
  omega

/-- The bytes a range test lets through. -/
def rangePatch (range : Option CopyRange) (data : Word) : Patch :=
  match range with
  | some r => r.patch data
  | none => Patch.empty

section Merge

variable {a s a' s' data : Word} {acc : Word × Word} {p : Patch}

/-- **The store buffer lays the bytes its range test finds over what it has.** -/
theorem mergeStore_shows (hs : 0 < s.toNat ∧ s.toNat ≤ 4) (hs' : 0 < s'.toNat ∧ s'.toNat ≤ 4)
    (hw : a.toNat + s.toNat ≤ 2 ^ 32) (h : Shows acc p) :
    Shows (mergeStore a s a' s' data acc) ((rangePatch (storeRange a s a' s') data).over p) := by
  unfold mergeStore storeRange
  by_cases h₁ : a' ≥ a ∧ a' ≤ a + s - 1
  · have htest := h₁
    rw [ge_iff_le, BitVec.le_def, BitVec.le_def, last_toNat hs.1 hw] at htest
    obtain ⟨hd, -⟩ := above_toNat a s a' hs.1 htest.1 (by omega)
    have hlen : (wordMin s' (a + s - a')).toNat ≤ 4 := by
      rw [wordMin_toNat]
      omega
    rw [if_pos h₁, if_pos h₁]
    dsimp only
    rw [bitMask_eq hlen, byteShift_toNat (by omega)]
    exact h.lay _ _ _
  · rw [if_neg h₁, if_neg h₁]
    by_cases h₂ : a' < a ∧ a' + s' - 1 ≥ a
    · have htest := h₂
      rw [ge_iff_le, BitVec.lt_def, BitVec.le_def, BitVec.toNat_sub, BitVec.toNat_add,
        show (1 : Word).toNat = 1 from rfl] at htest
      have hskip : (a - a').toNat < 4 := by
        rw [BitVec.toNat_sub]
        omega
      have hlen : (wordMin s (a' + s' - a)).toNat ≤ 4 := by
        rw [wordMin_toNat]
        omega
      rw [if_pos h₂, if_pos h₂]
      dsimp only
      rw [bitMask_eq hlen, byteShift_toNat hskip]
      exact h.layLow _ _ _
    · rw [if_neg h₂, if_neg h₂]
      exact h

/-- **So does the retired store buffer.** -/
theorem mergeRetired_shows (hs : 0 < s.toNat ∧ s.toNat ≤ 4) (hs' : 0 < s'.toNat ∧ s'.toNat ≤ 4)
    (h : Shows acc p) :
    Shows (mergeRetired a s a' s' data acc)
      ((rangePatch (retiredRange a s a' s') data).over p) := by
  unfold mergeRetired retiredRange
  by_cases h₁ : a' ≥ a ∧ a' < a + s
  · have htest := h₁
    rw [ge_iff_le, BitVec.le_def, BitVec.lt_def, BitVec.toNat_add] at htest
    have hfirst : (a' - a).toNat < 4 := by
      rw [BitVec.toNat_sub]
      omega
    have hlen : (wordMin s' (a + s - a')).toNat ≤ 4 := by
      rw [wordMin_toNat]
      omega
    rw [if_pos h₁, if_pos h₁]
    dsimp only
    rw [bitMask_eq hlen, byteShift_toNat hfirst]
    exact h.lay _ _ _
  · rw [if_neg h₁, if_neg h₁]
    by_cases h₂ : a' < a ∧ a' + s' > a
    · have htest := h₂
      rw [gt_iff_lt, BitVec.lt_def, BitVec.lt_def, BitVec.toNat_add] at htest
      have hskip : (a - a').toNat < 4 := by
        rw [BitVec.toNat_sub]
        omega
      have hlen : (wordMin s (a' + s' - a)).toNat ≤ 4 := by
        rw [wordMin_toNat]
        omega
      rw [if_pos h₂, if_pos h₂]
      dsimp only
      rw [bitMask_eq hlen, byteShift_toNat hskip]
      exact h.layLow _ _ _
    · rw [if_neg h₂, if_neg h₂]
      exact h

end Merge

end DreamCore
