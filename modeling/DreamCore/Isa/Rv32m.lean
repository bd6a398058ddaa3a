import DreamCore.Isa.Execute
import DreamCore.Lib.CInt
import DreamCore.Pipeline.Execute
import Mathlib.Algebra.Order.Ring.Abs

/-!
# RV32M arithmetic

The products and quotients are written three times here. `MulOp.exact` and
`DivOp.exact` are what the extension asks for, over the integers. `mulExpr` and
`divExpr` are the expressions the two models evaluate, cast by cast and type by
type: `mul.cpp` and `isa_model.cpp` hold the same ones, and so do `div.cpp` and
`isa_model.cpp`. The units of the model compute with words.

The expressions are defined for all operands, and the three agree.
-/

namespace DreamCore

open CInt

/-! ## What the extension asks for -/

/-- The integer whose low word a multiplication returns. -/
def MulOp.exact (op : MulOp) (a b : Word) : Int :=
  match op with
  | .mul => a.toInt * b.toInt
  | .mulh => a.toInt * b.toInt / 2 ^ 32
  | .mulhsu => a.toInt * b.toNat / 2 ^ 32
  | .mulhu => a.toNat * b.toNat / 2 ^ 32

/-- The integer whose low word a division returns. -/
def DivOp.exact (op : DivOp) (a b : Word) : Int :=
  match op with
  | .div =>
      if b.toInt = 0 then -1
      else if a.toInt = -2 ^ 31 ∧ b.toInt = -1 then a.toInt
      else a.toInt.tdiv b.toInt
  | .divu => if b.toNat = 0 then -1 else (a.toNat / b.toNat : Nat)
  | .rem =>
      if b.toInt = 0 then a.toInt
      else if a.toInt = -2 ^ 31 ∧ b.toInt = -1 then 0
      else a.toInt.tmod b.toInt
  | .remu => if b.toNat = 0 then a.toNat else (a.toNat % b.toNat : Nat)

/-! ## What the models evaluate -/

/-- A `uint32_t` field. -/
def u32 (v : Word) : Expr .u32 := .val (Ty.u32.ofBits v)

/-- The literal `0xffffffffull`. -/
def ones : Expr .u64 := .val ⟨0xffffffff, by decide⟩

/-- `(int32_t)v`. -/
def asInt32 (v : Word) : Expr .i32 := .cast .i32 (u32 v)

/-- The expressions of `mul::run` and `isa_model::execute_mul`. -/
def mulExpr (op : MulOp) (a b : Word) : Expr .u32 :=
  let signed (v : Word) : Expr .i64 := .cast .i64 (asInt32 v)
  let unsigned (v : Word) : Expr .u64 := .cast .u64 (u32 v)
  let low (product : Expr .u64) : Expr .u32 := .cast .u32 (.bin .band product ones)
  match op with
  | .mul => low (.cast .u64 (.bin .mul (signed a) (signed b)))
  | .mulh => low (.shr (.cast .u64 (.bin .mul (signed a) (signed b))) 32)
  | .mulhsu => low (.shr (.cast .u64 (.bin .mul (signed a) (unsigned b))) 32)
  | .mulhu => low (.shr (.cast .u64 (.bin .mul (unsigned a) (unsigned b))) 32)

/-- The expressions of `div::run` and `isa_model::execute_div`. -/
def divExpr (op : DivOp) (a b : Word) : Expr .u32 :=
  let overflow : Expr .i32 := .and (.eq (u32 a) (u32 0x80000000)) (.eq (u32 b) (u32 0xFFFFFFFF))
  let zero : Expr .i32 := .val ⟨0, by decide⟩
  let byZero : Expr .i32 := .eq (u32 b) zero
  match op with
  | .div =>
      .cond byZero (u32 0xFFFFFFFF)
        (.cond overflow (u32 0x80000000) (.cast .u32 (.bin .div (asInt32 a) (asInt32 b))))
  | .divu =>
      .cond byZero (u32 0xFFFFFFFF)
        (.cast .u32 (.bin .div (.cast .u32 (u32 a)) (.cast .u32 (u32 b))))
  | .rem =>
      .cond byZero (u32 a)
        (.cond overflow zero (.cast .u32 (.bin .rem (asInt32 a) (asInt32 b))))
  | .remu => .cond byZero (u32 a) (.bin .rem (.cast .u32 (asInt32 a)) (asInt32 b))

/-- **An expression is defined, the unit returns its value, and that is the low word of the
integer `z`.** -/
structure Exact (e : Expr .u32) (z : Int) (w : Word) : Prop where
  value : e.Is w.toNat
  word : w = BitVec.ofInt 32 z

variable {a b : Word}

/-! ## Operands -/

theorem u32_is (v : Word) : (u32 v).Is v.toNat := Expr.Is.val _

theorem asInt32_is (v : Word) : (asInt32 v).Is v.toInt := by
  have hval : (Ty.i32.wrap (v.toNat : Int)).1 = v.toInt := by
    simp only [Ty.wrap_val, Ty.signed, Ty.bits, if_true]
    exact (BitVec.toInt_eq_toNat_bmod v).symm
  exact hval ▸ (u32_is v).cast .i32

theorem toInt_inRange (v : Word) : Ty.i32.InRange v.toInt := by
  have hlo := BitVec.le_two_mul_toInt (x := v)
  have hhi := BitVec.two_mul_toInt_lt (x := v)
  simp [Ty.InRange, Ty.signed, Ty.bits]
  omega

theorem toNat_inRange (v : Word) : Ty.u32.InRange v.toNat := by
  have hlt := v.isLt
  simp [Ty.InRange, Ty.signed, Ty.bits]
  omega

/-- A conversion to `uint32_t` gives the low word. -/
theorem castWord_is {t : Ty} {e : Expr t} {z : Int} (h : e.Is z) :
    (Expr.cast .u32 e).Is (BitVec.ofInt 32 z).toNat := h.cast .u32

/-! ## Products -/

theorem product_bound {x y : Int} (hx : Ty.i32.InRange x) (hy : Ty.i32.InRange y) :
    Ty.i64.InRange (x * y) := by
  simp only [Ty.InRange, Ty.signed, Ty.bits, if_true] at hx hy ⊢
  have habs : |x * y| ≤ 2 ^ 31 * 2 ^ 31 := by
    rw [abs_mul]
    exact mul_le_mul (abs_le.mpr ⟨by omega, by omega⟩) (abs_le.mpr ⟨by omega, by omega⟩)
      (abs_nonneg y) (by norm_num)
  obtain ⟨hlo, hhi⟩ := abs_le.mp habs
  constructor <;> omega

/-- The low word of a 64-bit product, as `mul::run` takes it. -/
theorem lowWord_is {e : Expr .u64} {z : Int} (h : e.Is (Ty.u64.wrap z).1) :
    (Expr.cast .u32 (.bin .band e ones)).Is (BitVec.ofInt 32 z).toNat := by
  have hones : ones.Is (2 ^ 32 - 1) := Expr.Is.val _
  have hmask := Expr.Is.mask h hones rfl (by decide) (Ty.u64.wrap z).2
  have hlow := castWord_is hmask
  have heq : BitVec.ofInt 32 ((Ty.u64.wrap z).1 % 2 ^ 32) = BitVec.ofInt 32 z := by
    apply BitVec.eq_of_toNat_eq
    simp only [BitVec.toNat_ofInt, Ty.wrap_val, Ty.signed, Ty.bits]
    simp
  rwa [heq] at hlow

/-- The high word of a 64-bit product, as `mul::run` takes it. -/
theorem highWord_is {e : Expr .u64} {z : Int} (h : e.Is (Ty.u64.wrap z).1) :
    (Expr.cast .u32 (.bin .band (.shr e 32) ones)).Is (BitVec.ofInt 32 (z / 2 ^ 32)).toNat := by
  have hrange : Ty.u64.InRange ((Ty.u64.wrap z).1 / 2 ^ 32) := by
    have hwrap := (Ty.u64.wrap z).2
    simp only [Ty.InRange, Ty.signed, Ty.bits, Bool.false_eq_true, if_false] at hwrap ⊢
    omega
  have hshift := h.shr (show 32 < Ty.u64.bits by decide) hrange
  have hwrap : (Ty.u64.wrap ((Ty.u64.wrap z).1 / 2 ^ 32)).1 = (Ty.u64.wrap z).1 / 2 ^ 32 :=
    Ty.wrap_of_inRange hrange
  have hlow := lowWord_is (hwrap.symm ▸ hshift)
  have heq : BitVec.ofInt 32 ((Ty.u64.wrap z).1 / 2 ^ 32) = BitVec.ofInt 32 (z / 2 ^ 32) := by
    apply BitVec.eq_of_toNat_eq
    simp only [BitVec.toNat_ofInt, Ty.wrap_val, Ty.signed, Ty.bits]
    simp
    omega
  rwa [heq] at hlow

/-- A signed operand, converted to 64 bits. -/
theorem signed_is (v : Word) : (Expr.cast .i64 (asInt32 v)).Is v.toInt :=
  (asInt32_is v).castOf (by
    have hv := toInt_inRange v
    simp only [Ty.InRange, Ty.signed, Ty.bits, if_true] at hv ⊢
    omega)

/-- An unsigned operand, converted to 64 bits. -/
theorem unsigned_is (v : Word) : (Expr.cast .u64 (u32 v)).Is v.toNat :=
  (u32_is v).castOf (by
    have hv := toNat_inRange v
    simp only [Ty.InRange, Ty.signed, Ty.bits, Bool.false_eq_true, if_false] at hv ⊢
    omega)

/-- The product of two signed operands does not overflow. -/
theorem signedProduct_is (a b : Word) :
    (Expr.cast .u64 (.bin .mul (.cast .i64 (asInt32 a)) (.cast .i64 (asInt32 b)))).Is
      (Ty.u64.wrap (a.toInt * b.toInt)).1 := by
  have hwide (v : Word) : Ty.i64.InRange v.toInt := by
    have hv := toInt_inRange v
    simp only [Ty.InRange, Ty.signed, Ty.bits, if_true] at hv ⊢
    omega
  have hbound := product_bound (toInt_inRange a) (toInt_inRange b)
  exact (Expr.Is.mul (signed_is a) (signed_is b) (Ty.wrap_of_inRange (hwide a))
    (Ty.wrap_of_inRange (hwide b)) hbound).cast .u64

/-- A product of unsigned type wraps, which its high word does not show. -/
theorem wrapProduct_is {s t : Ty} {e : Expr s} {f : Expr t} {x y : Int} (he : e.Is x) (hf : f.Is y)
    (hc : s.common t = .u64) :
    (Expr.cast .u64 (.bin .mul e f)).Is (Ty.u64.wrap (x * y)).1 := by
  have hcast := (Expr.Is.mulWrap he hf (by rw [hc]; rfl)).cast .u64
  have hval : Ty.u64.wrap ((s.common t).wrap (x * y)).1 = Ty.u64.wrap (x * y) := by
    rw [hc, Ty.wrap_wrap (Nat.le_refl _)]
  rwa [hval] at hcast

/-- **Every multiplication is defined**, and its value is the low word of the exact result. -/
theorem mulExpr_is (op : MulOp) (a b : Word) :
    (mulExpr op a b).Is (BitVec.ofInt 32 (op.exact a b)).toNat := by
  cases op with
  | mul => exact lowWord_is (signedProduct_is a b)
  | mulh => exact highWord_is (signedProduct_is a b)
  | mulhsu => exact highWord_is (wrapProduct_is (signed_is a) (unsigned_is b) rfl)
  | mulhu => exact highWord_is (wrapProduct_is (unsigned_is a) (unsigned_is b) rfl)

/-! ## Quotients and remainders -/

theorem toNat_eq_zero (v : Word) : v.toNat = 0 ↔ v = 0 := by
  rw [← BitVec.toNat_inj]
  rfl

theorem toInt_eq_zero (v : Word) : v.toInt = 0 ↔ v = 0 := by
  rw [← BitVec.toInt_inj]
  rfl

/-- Division by zero is the only case the first test takes out. -/
theorem byZero_is (b : Word) :
    (Expr.eq (u32 b) (.val ⟨0, by decide⟩ : Expr .i32)).Is (if b = 0 then 1 else 0) := by
  have heq := (u32_is b).eq (Expr.Is.val (⟨0, by decide⟩ : Val .i32)) (toNat_inRange b) (by decide)
  have hiff : ((b.toNat : Int) = 0) ↔ b = 0 := by
    rw [← toNat_eq_zero]
    omega
  simpa only [hiff] using heq

/-- The operands whose quotient is out of range. -/
def Overflows (a b : Word) : Prop := a.toInt = -2 ^ 31 ∧ b.toInt = -1

instance (a b : Word) : Decidable (Overflows a b) := by unfold Overflows; infer_instance

theorem overflows_iff (a b : Word) : Overflows a b ↔ a = 0x80000000 ∧ b = 0xFFFFFFFF := by
  unfold Overflows
  rw [← BitVec.toInt_inj, ← BitVec.toInt_inj]
  rfl

theorem overflow_is (a b : Word) :
    (Expr.and (.eq (u32 a) (u32 0x80000000)) (.eq (u32 b) (u32 0xFFFFFFFF))).Is
      (if Overflows a b then 1 else 0) := by
  have hword (v w : Word) : (Expr.eq (u32 v) (u32 w)).Is (if v = w then 1 else 0) := by
    have heq := (u32_is v).eq (u32_is w) (toNat_inRange v) (toNat_inRange w)
    have hiff : ((v.toNat : Int) = w.toNat) ↔ v = w := by
      rw [← BitVec.toNat_inj]
      omega
    simpa only [hiff] using heq
  have hand := (hword a 0x80000000).and (hword b 0xFFFFFFFF)
  simpa only [overflows_iff, ne_eq, ite_eq_right_iff, one_ne_zero, imp_false, not_not] using hand

/-- Away from the overflow the quotient is in range. -/
theorem quotient_inRange {x y : Int} (hx : Ty.i32.InRange x) (h : ¬ (x = -2 ^ 31 ∧ y = -1)) :
    Ty.i32.InRange (x.tdiv y) := by
  simp only [Ty.InRange, Ty.signed, Ty.bits, if_true] at hx ⊢
  rcases Nat.lt_or_ge y.natAbs 2 with hsmall | hlarge
  · have hy : y = -1 ∨ y = 0 ∨ y = 1 := by omega
    rcases hy with rfl | rfl | rfl
    · rw [Int.tdiv_neg, Int.tdiv_one]
      have hne : x ≠ -2 ^ 31 := fun hx => h ⟨hx, rfl⟩
      omega
    · rw [Int.tdiv_zero]
      omega
    · rw [Int.tdiv_one]
      exact hx
  · -- a divisor of two or more halves the magnitude
    have habs : (x.tdiv y).natAbs = x.natAbs / y.natAbs := Int.natAbs_tdiv x y
    have hhalf : x.natAbs / y.natAbs ≤ x.natAbs / 2 := Nat.div_le_div_left hlarge (by omega)
    omega

theorem remainder_inRange {x y : Int} (hx : Ty.i32.InRange x) : Ty.i32.InRange (x.tmod y) := by
  simp only [Ty.InRange, Ty.signed, Ty.bits, if_true] at hx ⊢
  have habs : (x.tmod y).natAbs = x.natAbs % y.natAbs := Int.natAbs_tmod x y
  have hle : x.natAbs % y.natAbs ≤ x.natAbs := Nat.mod_le _ _
  by_cases hneg : 0 ≤ x
  · have hsign := Int.tmod_nonneg y hneg
    omega
  · have hsign := Int.tmod_nonneg y (show 0 ≤ -x by omega)
    rw [Int.neg_tmod] at hsign
    omega

theorem wrap_toInt (v : Word) : (Ty.i32.wrap v.toInt).1 = v.toInt :=
  Ty.wrap_of_inRange (toInt_inRange v)

theorem wrap_toNat (v : Word) : (Ty.u32.wrap (v.toNat : Int)).1 = v.toNat :=
  Ty.wrap_of_inRange (toNat_inRange v)

/-- Converting the signed value of a word to `uint32_t` gives the unsigned one. -/
theorem wrap_signed (v : Word) : (Ty.u32.wrap v.toInt).1 = v.toNat := by
  have hword : BitVec.ofInt 32 v.toInt = v := BitVec.ofInt_toInt
  exact congrArg (fun w : Word => (w.toNat : Int)) hword

theorem unsignedQuotient_is {s t : Ty} {e : Expr s} {f : Expr t} {x y : Int} (he : e.Is x)
    (hf : f.Is y) (hc : s.common t = .u32) (hx : (Ty.u32.wrap x).1 = a.toNat)
    (hy : (Ty.u32.wrap y).1 = b.toNat) (hb : b ≠ 0) :
    (Expr.bin .div e f).Is (a.toNat / b.toNat : Nat) ∧
      (Expr.bin .rem e f).Is (a.toNat % b.toNat : Nat) := by
  have hn : b.toNat ≠ 0 := fun h => hb ((toNat_eq_zero b).mp h)
  have hlt := a.isLt
  have hdiv : a.toNat / b.toNat ≤ a.toNat := Nat.div_le_self _ _
  have hmod : a.toNat % b.toNat ≤ a.toNat := Nat.mod_le _ _
  have hrange (n : Nat) (hle : n ≤ a.toNat) : (s.common t).InRange n := by
    rw [hc]
    simp [Ty.InRange, Ty.signed, Ty.bits]
    omega
  have hx' : ((s.common t).wrap x).1 = (a.toNat : Int) := by rw [hc, hx]
  have hy' : ((s.common t).wrap y).1 = (b.toNat : Int) := by rw [hc, hy]
  have hq : (s.common t).InRange ((a.toNat : Int).tdiv b.toNat) := by
    rw [← Int.ofNat_tdiv]
    exact hrange _ hdiv
  have hr : (s.common t).InRange ((a.toNat : Int).tmod b.toNat) := by
    rw [← Int.ofNat_tmod]
    exact hrange _ hmod
  rw [Int.ofNat_tdiv, Int.ofNat_tmod]
  exact ⟨he.div hf hx' hy' (by omega) hq, he.rem hf hx' hy' (by omega) hq hr⟩

/-- A test, as the source writes it, selects one of two words. -/
theorem select_is {p : Prop} [Decidable p] {r s t : Ty} {c : Expr r} {e : Expr s} {f : Expr t}
    {v w : Word} (hc : c.Is (if p then 1 else 0)) (ht : s.common t = .u32)
    (he : p → e.Is v.toNat) (hf : ¬ p → f.Is w.toNat) :
    (Expr.cond c e f).Is (if p then v else w).toNat := by
  by_cases hp : p
  · rw [if_pos hp] at hc ⊢
    exact hc.condTrue one_ne_zero (he hp) (ht ▸ toNat_inRange v)
  · rw [if_neg hp] at hc ⊢
    exact hc.condFalse rfl (hf hp) (ht ▸ toNat_inRange w)

/-- The exact result, case by case as the source tests for them. -/
theorem divExact_word (op : DivOp) (a b : Word) :
    BitVec.ofInt 32 (op.exact a b) =
      match op with
      | .div => if b = 0 then 0xFFFFFFFF else if Overflows a b then 0x80000000
          else BitVec.ofInt 32 (a.toInt.tdiv b.toInt)
      | .divu => if b = 0 then 0xFFFFFFFF else BitVec.ofInt 32 (a.toNat / b.toNat : Nat)
      | .rem => if b = 0 then a else if Overflows a b then 0
          else BitVec.ofInt 32 (a.toInt.tmod b.toInt)
      | .remu => if b = 0 then a else BitVec.ofInt 32 (a.toNat % b.toNat : Nat) := by
  have hself : BitVec.ofInt 32 (a.toNat : Int) = a := by
    rw [BitVec.ofInt_natCast, BitVec.ofNat_toNat, BitVec.setWidth_eq]
  cases op with
  | div =>
      simp only [DivOp.exact, toInt_eq_zero]
      split
      · rfl
      · split
        · rename_i hover
          rw [if_pos (show Overflows a b from hover), hover.1]
          rfl
        · rename_i hover
          rw [if_neg (show ¬ Overflows a b from hover)]
  | divu =>
      simp only [DivOp.exact, toNat_eq_zero]
      split <;> rfl
  | rem =>
      simp only [DivOp.exact, toInt_eq_zero]
      split
      · exact BitVec.ofInt_toInt
      · split
        · rename_i hover
          rw [if_pos (show Overflows a b from hover)]
          rfl
        · rename_i hover
          rw [if_neg (show ¬ Overflows a b from hover)]
  | remu =>
      simp only [DivOp.exact, toNat_eq_zero]
      split
      · exact hself
      · rfl

/-- **Every division is defined**, and its value is the low word of the exact result. -/
theorem divExpr_is (op : DivOp) (a b : Word) :
    (divExpr op a b).Is (BitVec.ofInt 32 (op.exact a b)).toNat := by
  have hi (hb : b ≠ 0) : b.toInt ≠ 0 := fun h => hb ((toInt_eq_zero b).mp h)
  rw [divExact_word]
  cases op with
  | div =>
      refine select_is (byZero_is b) rfl (fun _ => u32_is _) (fun hb => ?_)
      refine select_is (overflow_is a b) rfl (fun _ => u32_is _) (fun hover => ?_)
      exact castWord_is ((asInt32_is a).div (asInt32_is b) (wrap_toInt a) (wrap_toInt b) (hi hb)
        (quotient_inRange (toInt_inRange a) hover))
  | divu =>
      refine select_is (byZero_is b) rfl (fun _ => u32_is _) (fun hb => ?_)
      have hcast (v : Word) : (Expr.cast .u32 (u32 v)).Is v.toNat :=
        (u32_is v).castOf (toNat_inRange v)
      exact castWord_is (unsignedQuotient_is (hcast a) (hcast b) rfl (wrap_toNat a) (wrap_toNat b)
        hb).1
  | rem =>
      refine select_is (byZero_is b) rfl (fun _ => u32_is _) (fun hb => ?_)
      refine select_is (overflow_is a b) rfl (fun _ => Expr.Is.val _) (fun hover => ?_)
      exact castWord_is ((asInt32_is a).rem (asInt32_is b) (wrap_toInt a) (wrap_toInt b) (hi hb)
        (quotient_inRange (toInt_inRange a) hover) (remainder_inRange (toInt_inRange a)))
  | remu =>
      refine select_is (byZero_is b) rfl (fun _ => u32_is _) (fun hb => ?_)
      have hcast : (Expr.cast .u32 (asInt32 a)).Is a.toNat :=
        wrap_signed a ▸ (asInt32_is a).cast .u32
      have hrem := (unsignedQuotient_is hcast (asInt32_is b) rfl (wrap_toNat a) (wrap_signed b)
        hb).2
      have hlt : a.toNat % b.toNat < 2 ^ 32 := Nat.lt_of_le_of_lt (Nat.mod_le _ _) a.isLt
      have hword : (BitVec.ofInt 32 (a.toNat % b.toNat : Nat)).toNat = a.toNat % b.toNat := by
        rw [BitVec.ofInt_natCast, BitVec.toNat_ofNat, Nat.mod_eq_of_lt hlt]
      rw [hword]
      exact hrem

/-! ## The units -/

/-- The low word, masked and cut. -/
theorem lowWord_ofInt (v : BitVec 64) (z : Int) (h : v = BitVec.ofInt 64 z) :
    (v &&& 0xffffffff).setWidth 32 = BitVec.ofInt 32 z := by
  subst h
  apply BitVec.eq_of_toNat_eq
  have hmask : (0xffffffff : BitVec 64).toNat = 2 ^ 32 - 1 := rfl
  rw [BitVec.toNat_setWidth, BitVec.toNat_and, hmask, Nat.and_two_pow_sub_one_eq_mod,
    BitVec.toNat_ofInt, BitVec.toNat_ofInt]
  omega

theorem highWord_ofInt (z : Int) :
    highWord (BitVec.ofInt 64 z) = BitVec.ofInt 32 (z / 2 ^ 32) := by
  have hshift : BitVec.ofInt 64 z >>> 32 = BitVec.ofInt 64 (z % 2 ^ 64 / 2 ^ 32) := by
    apply BitVec.eq_of_toNat_eq
    rw [BitVec.toNat_ushiftRight, BitVec.toNat_ofInt, BitVec.toNat_ofInt,
      Nat.shiftRight_eq_div_pow]
    omega
  unfold highWord
  rw [lowWord_ofInt _ _ hshift]
  apply BitVec.eq_of_toNat_eq
  rw [BitVec.toNat_ofInt, BitVec.toNat_ofInt]
  omega

/-- The products of words are those of integers. -/
theorem signed_mul_signed (a b : Word) :
    a.signExtend 64 * b.signExtend 64 = BitVec.ofInt 64 (a.toInt * b.toInt) :=
  (BitVec.ofInt_mul ..).symm

theorem setWidth_eq_ofInt (v : Word) : v.setWidth 64 = BitVec.ofInt 64 (v.toNat : Int) := by
  rw [BitVec.ofInt_natCast, BitVec.ofNat_toNat]

theorem signed_mul_unsigned (a b : Word) :
    a.signExtend 64 * b.setWidth 64 = BitVec.ofInt 64 (a.toInt * b.toNat) := by
  rw [setWidth_eq_ofInt, BitVec.ofInt_mul]
  rfl

theorem unsigned_mul_unsigned (a b : Word) :
    a.setWidth 64 * b.setWidth 64 = BitVec.ofInt 64 (a.toNat * b.toNat) := by
  rw [setWidth_eq_ofInt, setWidth_eq_ofInt, BitVec.ofInt_mul]

/-- The value of `mul::run`. -/
theorem mulOutcome_word (op : MulOp) (rev : ReadregExecutePack) (send : ExecuteWbPack) :
    (mulOutcome rev op send).rdValue
      = BitVec.ofInt 32 (op.exact rev.src1Value rev.src2Value) := by
  cases op with
  | mul => exact lowWord_ofInt _ _ (signed_mul_signed _ _)
  | mulh => exact (congrArg highWord (signed_mul_signed _ _)).trans (highWord_ofInt _)
  | mulhsu => exact (congrArg highWord (signed_mul_unsigned _ _)).trans (highWord_ofInt _)
  | mulhu => exact (congrArg highWord (unsigned_mul_unsigned _ _)).trans (highWord_ofInt _)

theorem sdiv_word (a b : Word) : a.sdiv b = BitVec.ofInt 32 (a.toInt.tdiv b.toInt) := by
  apply BitVec.eq_of_toInt_eq
  rw [BitVec.toInt_sdiv, BitVec.toInt_ofInt]

theorem srem_word (a b : Word) : a.srem b = BitVec.ofInt 32 (a.toInt.tmod b.toInt) := by
  rw [← BitVec.toInt_srem, BitVec.ofInt_toInt]

theorem udiv_word (a b : Word) : a.udiv b = BitVec.ofInt 32 (a.toNat / b.toNat : Nat) := by
  apply BitVec.eq_of_toNat_eq
  have hlt : a.toNat / b.toNat < 2 ^ 32 := Nat.lt_of_le_of_lt (Nat.div_le_self _ _) a.isLt
  rw [BitVec.ofInt_natCast, BitVec.toNat_ofNat, Nat.mod_eq_of_lt hlt]
  exact BitVec.toNat_udiv

theorem umod_word (a b : Word) : a.umod b = BitVec.ofInt 32 (a.toNat % b.toNat : Nat) := by
  apply BitVec.eq_of_toNat_eq
  have hlt : a.toNat % b.toNat < 2 ^ 32 := Nat.lt_of_le_of_lt (Nat.mod_le _ _) a.isLt
  rw [BitVec.ofInt_natCast, BitVec.toNat_ofNat, Nat.mod_eq_of_lt hlt]
  exact BitVec.toNat_umod

/-- The value of `div::run`. -/
theorem divOutcome_word (op : DivOp) (rev : ReadregExecutePack) (send : ExecuteWbPack) :
    (divOutcome rev op send).rdValue
      = BitVec.ofInt 32 (op.exact rev.src1Value rev.src2Value) := by
  have hover : (rev.src1Value == 0x80000000 && rev.src2Value == 0xFFFFFFFF) = true ↔
      Overflows rev.src1Value rev.src2Value := by
    rw [overflows_iff]
    simp
  rw [divExact_word]
  cases op with
  | div => simp only [divOutcome, hover, sdiv_word]
  | divu => simp only [divOutcome, udiv_word]
  | rem => simp only [divOutcome, hover, srem_word]
  | remu => simp only [divOutcome, umod_word]

/-- The execute functions of the ISA model compute what the units compute. -/
theorem mulSwitch_word (s : Isa.State) (op : MulOp) :
    (Isa.mulSwitch s op).rdValue = BitVec.ofInt 32 (op.exact s.src1Value s.src2Value) := by
  have hsame : (Isa.mulSwitch s op).rdValue
      = (mulOutcome { src1Value := s.src1Value, src2Value := s.src2Value } op {}).rdValue := by
    cases op <;> rfl
  rw [hsame, mulOutcome_word]

theorem divSwitch_word (s : Isa.State) (op : DivOp) :
    (Isa.divSwitch s op).rdValue = BitVec.ofInt 32 (op.exact s.src1Value s.src2Value) := by
  have hsame : (Isa.divSwitch s op).rdValue
      = (divOutcome { src1Value := s.src1Value, src2Value := s.src2Value } op {}).rdValue := by
    cases op <;> rfl
  rw [hsame, divOutcome_word]

theorem exact_mul {op : MulOp} {w : Word} (h : w = BitVec.ofInt 32 (op.exact a b)) :
    Exact (mulExpr op a b) (op.exact a b) w :=
  ⟨h ▸ mulExpr_is op a b, h⟩

theorem exact_div {op : DivOp} {w : Word} (h : w = BitVec.ofInt 32 (op.exact a b)) :
    Exact (divExpr op a b) (op.exact a b) w :=
  ⟨h ▸ divExpr_is op a b, h⟩

/-- **RV32M is computed exactly.** Whatever the operands, the expression each of the eight
operations evaluates is defined, and its value, which the unit sends to write-back and the ISA
model puts into `rd_value`, is the low word of the result over the integers. -/
theorem rv32m_exact :
    (∀ (rev : ReadregExecutePack) (op : MulOp), rev.enable = true → rev.subOp = .mul op →
      Exact (mulExpr op rev.src1Value rev.src2Value) (op.exact rev.src1Value rev.src2Value)
        (mulCompute rev).rdValue) ∧
    (∀ (rev : ReadregExecutePack) (op : DivOp), rev.enable = true → rev.subOp = .div op →
      Exact (divExpr op rev.src1Value rev.src2Value) (op.exact rev.src1Value rev.src2Value)
        (divCompute rev).rdValue) ∧
    (∀ (s : Isa.State) (op : MulOp), s.valid = true → s.hasException = false →
      s.subOp = .mul op → ∃ s', Isa.executeMul s = some s' ∧
        Exact (mulExpr op s.src1Value s.src2Value) (op.exact s.src1Value s.src2Value)
          s'.rdValue) ∧
    (∀ (s : Isa.State) (op : DivOp), s.valid = true → s.hasException = false →
      s.subOp = .div op → ∃ s', Isa.executeDiv s = some s' ∧
        Exact (divExpr op s.src1Value s.src2Value) (op.exact s.src1Value s.src2Value)
          s'.rdValue) := by
  refine ⟨?_, ?_, ?_, ?_⟩
  · intro rev op henable hop
    have hsend : mulCompute rev = mulOutcome rev op (ExecuteWbPack.copy rev) := by
      simp only [mulCompute, henable, hop]
    rw [hsend]
    exact exact_mul (mulOutcome_word op rev _)
  · intro rev op henable hop
    have hsend : divCompute rev = divOutcome rev op (ExecuteWbPack.copy rev) := by
      simp only [divCompute, henable, hop]
    rw [hsend]
    exact exact_div (divOutcome_word op rev _)
  · intro s op hvalid hexc hop
    refine ⟨Isa.mulSwitch s op, ?_, exact_mul (mulSwitch_word s op)⟩
    simp [Isa.executeMul, hvalid, hexc, hop]
  · intro s op hvalid hexc hop
    refine ⟨Isa.divSwitch s op, ?_, exact_div (divSwitch_word s op)⟩
    simp [Isa.executeDiv, hvalid, hexc, hop]

/-- The most negative word times the largest unsigned one, its high word; and its quotient by minus
one. -/
theorem rv32m_exact_extremes :
    Exact (mulExpr .mulhsu 0x80000000 0xFFFFFFFF) (-2 ^ 31) 0x80000000 ∧
      Exact (divExpr .div 0x80000000 0xFFFFFFFF) (-2 ^ 31) 0x80000000 := by
  obtain ⟨hmul, hdiv, -, -⟩ := rv32m_exact
  let minTimesMax : ReadregExecutePack :=
    { enable := true
      subOp := .mul .mulhsu
      src1Value := 0x80000000
      src2Value := 0xFFFFFFFF }
  let minByMinusOne : ReadregExecutePack :=
    { enable := true
      subOp := .div .div
      src1Value := 0x80000000
      src2Value := 0xFFFFFFFF }
  have hhigh := hmul minTimesMax .mulhsu rfl rfl
  have hquot := hdiv minByMinusOne .div rfl rfl
  have hexact : MulOp.mulhsu.exact 0x80000000 0xFFFFFFFF = -2 ^ 31 ∧
      DivOp.div.exact 0x80000000 0xFFFFFFFF = -2 ^ 31 := by decide
  have hsent : (mulCompute minTimesMax).rdValue = 0x80000000 ∧
      (divCompute minByMinusOne).rdValue = 0x80000000 := by decide
  rw [hsent.1] at hhigh
  rw [hsent.2] at hquot
  exact ⟨hexact.1 ▸ hhigh, hexact.2 ▸ hquot⟩

end DreamCore
