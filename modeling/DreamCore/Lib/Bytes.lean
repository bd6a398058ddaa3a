import Mathlib.Data.List.Basic
import Mathlib.Data.Nat.Bitwise
import Mathlib.Logic.Function.Basic

/-!
# Bytes laid over bytes

A word is a row of bytes, and a store lays some of its bytes over what is there.
Hardware keeps what has been laid down so far in two words: the values, and a
mask that has all ones in the bytes that are covered and zeros in the others.

A `Patch` says the same without words: for every byte, the value that covers it,
if any. `Shows` ties the two together. Laying one patch over another and looking
through a patch at a word below are then statements about single bytes.
-/

namespace Bytes

variable {w : Nat}

/-- The `k`th byte of a word, from the low end. -/
def byte (v : BitVec w) (k : Nat) : BitVec 8 := v.extractLsb' (8 * k) 8

/-- The low `bits` bits. -/
def lowMask (w bits : Nat) : BitVec w := BitVec.ofNat w (2 ^ bits - 1)

/-- For every byte, the value that covers it. -/
abbrev Patch := Nat → Option (BitVec 8)

/-- The upper patch lies over the lower. -/
def Patch.over (upper lower : Patch) : Patch := fun k => (upper k).or (lower k)

/-- The bytes `[first, first + len)` are covered by those of `d`, the `first`th by the `skip`th
byte of `d`. -/
def Patch.window (first len skip : Nat) (d : BitVec w) : Patch := fun k =>
  if first ≤ k ∧ k < first + len then some (byte d (k - first + skip)) else none

/-- Nothing is covered. -/
def Patch.empty : Patch := fun _ => none

/-- The byte of the mask over a byte of a patch. -/
def maskByte : Option (BitVec 8) → BitVec 8
  | some _ => 255#8
  | none => 0#8

/-- A value and a mask show a patch: covered bytes have the value and a full mask, the others
are zero in both. -/
def Shows (acc : BitVec w × BitVec w) (p : Patch) : Prop :=
  ∀ k, 8 * k + 8 ≤ w → byte acc.1 k = (p k).getD 0#8 ∧ byte acc.2 k = maskByte (p k)

/-! ## Bytes of a word -/

theorem getLsbD_byte (v : BitVec w) (k j : Nat) :
    (byte v k).getLsbD j = (decide (j < 8) && v.getLsbD (8 * k + j)) := by
  simp [byte]

@[simp] theorem byte_zero (k : Nat) : byte 0#w k = 0#8 := by simp [byte]

theorem byte_and (a b : BitVec w) (k : Nat) : byte (a &&& b) k = byte a k &&& byte b k :=
  BitVec.extractLsb'_and

theorem byte_or (a b : BitVec w) (k : Nat) : byte (a ||| b) k = byte a k ||| byte b k :=
  BitVec.extractLsb'_or

theorem byte_not (a : BitVec w) {k : Nat} (h : 8 * k + 8 ≤ w) : byte (~~~a) k = ~~~byte a k := by
  refine BitVec.eq_of_getLsbD_eq fun j hj => ?_
  have hw : 8 * k + j < w := by omega
  rw [getLsbD_byte, BitVec.getLsbD_not, BitVec.getLsbD_not, getLsbD_byte]
  simp [hj, hw]

/-- Shifting up by whole bytes moves the bytes up. -/
theorem byte_shiftLeft (a : BitVec w) (n : Nat) {k : Nat} (h : 8 * k + 8 ≤ w) :
    byte (a <<< (8 * n)) k = if n ≤ k then byte a (k - n) else 0#8 := by
  refine BitVec.eq_of_getLsbD_eq fun j hj => ?_
  have hw : 8 * k + j < w := by omega
  rw [getLsbD_byte, BitVec.getLsbD_shiftLeft]
  split
  · rename_i hn
    have hlt : ¬ 8 * k + j < 8 * n := by omega
    rw [getLsbD_byte, show 8 * k + j - 8 * n = 8 * (k - n) + j by omega]
    simp [hj, hw, hlt]
  · have hlt : 8 * k + j < 8 * n := by omega
    simp [hlt]

/-- Shifting down by whole bytes moves the bytes down. -/
theorem byte_shiftRight (a : BitVec w) (n k : Nat) : byte (a >>> (8 * n)) k = byte a (k + n) := by
  refine BitVec.eq_of_getLsbD_eq fun j hj => ?_
  rw [getLsbD_byte, BitVec.getLsbD_ushiftRight, getLsbD_byte,
    show 8 * n + (8 * k + j) = 8 * (k + n) + j by omega]

/-- The bytes of a mask of whole bytes. -/
theorem byte_lowMask (len : Nat) {k : Nat} (h : 8 * k + 8 ≤ w) :
    byte (lowMask w (8 * len)) k = if k < len then 255#8 else 0#8 := by
  refine BitVec.eq_of_getLsbD_eq fun j hj => ?_
  have hw : 8 * k + j < w := by omega
  rw [getLsbD_byte, lowMask, BitVec.getLsbD_ofNat, Nat.testBit_two_pow_sub_one]
  split
  · have hlt : 8 * k + j < 8 * len := by omega
    have hff : (255#8).getLsbD j = true := by
      rw [show 255#8 = BitVec.allOnes 8 from rfl, BitVec.getLsbD_allOnes]
      exact decide_eq_true hj
    rw [hff]
    simp [hj, hw, hlt]
  · have hlt : ¬ 8 * k + j < 8 * len := by omega
    simp [hlt]

/-- The low bits, as the subtraction hardware computes them. -/
theorem shiftLeft_sub_one {bits : Nat} (h : bits < w) :
    1#w <<< bits - 1#w = lowMask w bits := by
  have hw : 0 < w := by omega
  have hone : (1 : Nat) < 2 ^ w := Nat.one_lt_two_pow (by omega)
  have hlt : 2 ^ bits < 2 ^ w := Nat.pow_lt_pow_right (by omega) h
  have hpos : 0 < 2 ^ bits := Nat.two_pow_pos bits
  apply BitVec.eq_of_toNat_eq
  have hshift : (1#w <<< bits).toNat = 2 ^ bits := by
    rw [BitVec.toNat_shiftLeft, BitVec.toNat_ofNat, Nat.mod_eq_of_lt hone, Nat.one_shiftLeft,
      Nat.mod_eq_of_lt hlt]
  rw [BitVec.toNat_sub, hshift, BitVec.toNat_ofNat, Nat.mod_eq_of_lt hone, lowMask,
    BitVec.toNat_ofNat, Nat.mod_eq_of_lt (by omega : 2 ^ bits - 1 < 2 ^ w)]
  rw [show 2 ^ w - 1 + 2 ^ bits = 2 ^ bits - 1 + 2 ^ w by omega, Nat.add_mod_right,
    Nat.mod_eq_of_lt (by omega)]

/-- A word is its bytes. -/
theorem eq_of_byte {a b : BitVec w} {n : Nat} (hw : w = 8 * n)
    (h : ∀ k < n, byte a k = byte b k) : a = b := by
  refine BitVec.eq_of_getLsbD_eq fun i hi => ?_
  have hb := congrArg (fun v => v.getLsbD (i % 8)) (h (i / 8) (by omega))
  simp only [getLsbD_byte, Nat.div_add_mod] at hb
  have hmod : i % 8 < 8 := Nat.mod_lt _ (by omega)
  simpa [hmod] using hb

/-! ## Masks -/

theorem and_ff (b : BitVec 8) : b &&& 255#8 = b := by
  rw [show 255#8 = BitVec.allOnes 8 from rfl, BitVec.and_allOnes]

theorem not_ff : ~~~255#8 = 0#8 := by decide

theorem not_zero : ~~~0#8 = 255#8 := by decide

/-- What is laid down where a mask is full, byte by byte. -/
theorem byte_merge (below value mask : BitVec w) {k : Nat} (h : 8 * k + 8 ≤ w) {c : Prop}
    [Decidable c] (hm : byte mask k = if c then 255#8 else 0#8) :
    byte ((below &&& ~~~mask) ||| (value &&& mask)) k
      = if c then byte value k else byte below k := by
  rw [byte_or, byte_and, byte_and, byte_not _ h, hm]
  split
  · rw [not_ff, and_ff, BitVec.and_zero, BitVec.zero_or]
  · rw [not_zero, and_ff, BitVec.and_zero, BitVec.or_zero]

/-! ## Patches -/

@[simp] theorem Patch.over_empty (p : Patch) : p.over empty = p := by
  funext k
  simp only [Patch.over, Patch.empty]
  cases p k <;> rfl

@[simp] theorem Patch.empty_over (p : Patch) : empty.over p = p := rfl

theorem shows_zero : Shows (0#w, 0#w) Patch.empty := by
  intro k _
  exact ⟨byte_zero k, byte_zero k⟩

theorem maskByte_or_ff (b : Option (BitVec 8)) : maskByte b ||| 255#8 = 255#8 := by
  cases b with
  | none => rfl
  | some b => exact BitVec.or_self

/-- **Laying the low bytes of a value over the word, from byte `first` on.** -/
theorem Shows.lay {acc : BitVec w × BitVec w} {p : Patch} (hs : Shows acc p) (first len : Nat)
    (d : BitVec w) :
    Shows ((acc.1 &&& ~~~(lowMask w (8 * len) <<< (8 * first)))
        ||| ((d &&& lowMask w (8 * len)) <<< (8 * first)),
      acc.2 ||| (lowMask w (8 * len) <<< (8 * first)))
      ((Patch.window first len 0 d).over p) := by
  intro k hk
  obtain ⟨hv, hm⟩ := hs k hk
  have hmask : byte (lowMask w (8 * len) <<< (8 * first)) k
      = if first ≤ k ∧ k < first + len then 255#8 else 0#8 := by
    rw [byte_shiftLeft _ _ hk]
    by_cases hf : first ≤ k
    · rw [if_pos hf, byte_lowMask _ (by omega)]
      by_cases hl : k - first < len
      · rw [if_pos hl, if_pos ⟨hf, by omega⟩]
      · rw [if_neg hl, if_neg (by omega)]
    · rw [if_neg hf, if_neg (fun hc => hf hc.1)]
  have hval : (d &&& lowMask w (8 * len)) <<< (8 * first)
      = (d <<< (8 * first)) &&& (lowMask w (8 * len) <<< (8 * first)) := by
    refine BitVec.eq_of_getLsbD_eq fun j hj => ?_
    simp only [BitVec.getLsbD_and, BitVec.getLsbD_shiftLeft]
    cases decide (j < w) <;> cases decide (j < 8 * first) <;> simp
  have hlaid := byte_merge acc.1 (d <<< (8 * first)) _ hk hmask
  rw [← hval] at hlaid
  simp only [Patch.over, Patch.window]
  by_cases hc : first ≤ k ∧ k < first + len
  · rw [if_pos hc, byte_shiftLeft _ _ hk, if_pos hc.1] at hlaid
    refine ⟨by rw [if_pos hc, hlaid]; rfl, ?_⟩
    rw [byte_or, hmask, if_pos hc, hm, maskByte_or_ff, if_pos hc]
    rfl
  · rw [if_neg hc] at hlaid
    refine ⟨by rw [if_neg hc, hlaid, hv]; rfl, ?_⟩
    rw [byte_or, hmask, if_neg hc, hm, BitVec.or_zero, if_neg hc]
    rfl

/-- **Laying the bytes of a value from byte `skip` on over the low bytes of the word.** -/
theorem Shows.layLow {acc : BitVec w × BitVec w} {p : Patch} (hs : Shows acc p) (len skip : Nat)
    (d : BitVec w) :
    Shows ((acc.1 &&& ~~~lowMask w (8 * len)) ||| ((d >>> (8 * skip)) &&& lowMask w (8 * len)),
      acc.2 ||| lowMask w (8 * len)) ((Patch.window 0 len skip d).over p) := by
  intro k hk
  obtain ⟨hv, hm⟩ := hs k hk
  have hmask := byte_lowMask (w := w) len hk
  have hlaid := byte_merge acc.1 (d >>> (8 * skip)) _ hk hmask
  simp only [Patch.over, Patch.window, Nat.zero_le, true_and, Nat.zero_add, Nat.sub_zero]
  by_cases hc : k < len
  · rw [if_pos hc, byte_shiftRight] at hlaid
    refine ⟨by rw [if_pos hc, hlaid]; rfl, ?_⟩
    rw [byte_or, hmask, if_pos hc, hm, maskByte_or_ff, if_pos hc]
    rfl
  · rw [if_neg hc] at hlaid
    refine ⟨by rw [if_neg hc, hlaid, hv]; rfl, ?_⟩
    rw [byte_or, hmask, if_neg hc, hm, BitVec.or_zero, if_neg hc]
    rfl

theorem Shows.congr {acc : BitVec w × BitVec w} {p q : Patch} (hs : Shows acc p)
    (h : ∀ k, 8 * k + 8 ≤ w → p k = q k) : Shows acc q := by
  intro k hk
  rw [← h k hk]
  exact hs k hk

/-- The mask over one byte. -/
theorem byte_single (j : Nat) {k : Nat} (hk : 8 * k + 8 ≤ w) :
    byte (lowMask w 8 <<< (8 * j)) k = if k = j then 255#8 else 0#8 := by
  rw [byte_shiftLeft _ _ hk]
  by_cases hj : j ≤ k
  · have hlow := byte_lowMask (w := w) 1 (k := k - j) (by omega)
    rw [if_pos hj, hlow]
    by_cases he : k = j
    · rw [if_pos (by omega), if_pos he]
    · rw [if_neg (by omega), if_neg he]
  · rw [if_neg hj, if_neg (by omega)]

/-- **Laying one byte of a lower patch where the upper one leaves it free.** -/
theorem Shows.fill {lower upper : BitVec w × BitVec w} {p q : Patch} (hl : Shows lower p)
    (hu : Shows upper q) (j : Nat) (hq : q j = none) {b : BitVec 8} (hp : p j = some b) :
    Shows (upper.1 ||| (lower.1 &&& (lowMask w 8 <<< (8 * j))),
      upper.2 ||| (lowMask w 8 <<< (8 * j))) (Function.update q j (p j)) := by
  intro k hk
  obtain ⟨hv, hm⟩ := hu k hk
  dsimp only
  rw [byte_or, byte_or, byte_and, byte_single j hk, hv, hm]
  by_cases hkj : k = j
  · subst hkj
    rw [if_pos rfl, and_ff, (hl k hk).1, Function.update_self, hq, hp]
    exact ⟨BitVec.zero_or, BitVec.zero_or⟩
  · rw [if_neg hkj, Function.update_of_ne hkj, BitVec.and_zero, BitVec.or_zero, BitVec.or_zero]
    exact ⟨rfl, rfl⟩

/-- Whether a byte is covered can be read off the mask. -/
theorem Shows.mask_eq_zero {acc : BitVec w × BitVec w} {p : Patch} (hs : Shows acc p) {n j : Nat}
    (hw : w = 8 * n) (hj : j < n) : acc.2 &&& (lowMask w 8 <<< (8 * j)) = 0#w ↔ p j = none := by
  have hbyte : ∀ k < n, byte (acc.2 &&& (lowMask w 8 <<< (8 * j))) k
      = if k = j then maskByte (p j) else 0#8 := by
    intro k hk
    rw [byte_and, byte_single j (by omega), (hs k (by omega)).2]
    split
    · rename_i he
      rw [he, and_ff]
    · exact BitVec.and_zero
  constructor
  · intro h
    have hj' := hbyte j hj
    rw [h, byte_zero, if_pos rfl] at hj'
    cases hp : p j with
    | none => rfl
    | some b =>
      rw [hp] at hj'
      have hne : 0#8 ≠ 255#8 := by decide
      exact absurd hj' hne
  · intro h
    refine eq_of_byte hw fun k hk => ?_
    rw [hbyte k hk, h, byte_zero]
    split <;> rfl

/-- **Looking through a patch at the word below.** -/
theorem Shows.through {acc : BitVec w × BitVec w} {p : Patch} (hs : Shows acc p)
    (below : BitVec w) {k : Nat} (hk : 8 * k + 8 ≤ w) :
    byte ((below &&& ~~~acc.2) ||| acc.1) k = (p k).getD (byte below k) := by
  obtain ⟨hv, hm⟩ := hs k hk
  rw [byte_or, byte_and, byte_not _ hk, hv, hm]
  cases p k with
  | none => simp [maskByte, and_ff]
  | some b => simp [maskByte, not_ff]

end Bytes
