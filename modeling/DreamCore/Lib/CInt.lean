import Mathlib.Data.Int.Basic
import Mathlib.Tactic.Linarith

/-!
# Integer expressions of C++

The value of an integer expression depends on the types of its operands: they are
converted to a common type first, arithmetic on unsigned types wraps, and
arithmetic on signed types that leaves the range, a division by zero or a shift
by the width is undefined.

`Expr t` is an expression of type `t`, `Val t` an integer that is in the range of
`t`. `Expr.eval` gives no value where evaluating the expression is undefined, and
it evaluates of a conditional and of `&&` only what C++ evaluates.
-/

namespace CInt

/-- The integer types from `int` up. Narrower ones are promoted before anything is computed. -/
inductive Ty where
  | i32
  | u32
  | i64
  | u64
deriving DecidableEq, Repr

def Ty.bits : Ty → Nat
  | .i32 | .u32 => 32
  | .i64 | .u64 => 64

def Ty.signed : Ty → Bool
  | .i32 | .i64 => true
  | .u32 | .u64 => false

/-- The integers of a type. -/
def Ty.InRange (t : Ty) (v : Int) : Prop :=
  if t.signed then -2 ^ (t.bits - 1) ≤ v ∧ v < 2 ^ (t.bits - 1) else 0 ≤ v ∧ v < 2 ^ t.bits

instance (t : Ty) (v : Int) : Decidable (t.InRange v) := by unfold Ty.InRange; infer_instance

/-- The type both operands of an arithmetic operator are converted to. -/
def Ty.common : Ty → Ty → Ty
  | .u64, _ | _, .u64 => .u64
  | .i64, _ | _, .i64 => .i64
  | .u32, _ | _, .u32 => .u32
  | .i32, .i32 => .i32

/-- A value of a type. -/
def Val (t : Ty) : Type := { v : Int // t.InRange v }

instance (t : Ty) : DecidableEq (Val t) := inferInstanceAs (DecidableEq { v : Int // t.InRange v })

theorem Val.ext {t : Ty} {x y : Val t} (h : x.1 = y.1) : x = y := Subtype.ext h

variable {s t : Ty}

/-- The integer a row of bits stands for. -/
def Ty.ofBits (t : Ty) (b : BitVec t.bits) : Val t :=
  ⟨if t.signed then b.toInt else b.toNat, by
    have hlo := BitVec.le_two_mul_toInt (x := b)
    have hhi := BitVec.two_mul_toInt_lt (x := b)
    have hlt := b.isLt
    cases t <;> simp only [Ty.InRange, Ty.signed, Ty.bits, if_true] at * <;> simp <;> omega⟩

/-- The conversion to a type: the value that is congruent modulo the number of values. -/
def Ty.wrap (t : Ty) (v : Int) : Val t := t.ofBits (BitVec.ofInt t.bits v)

/-- The result of an arithmetic operator: unsigned types wrap, leaving a signed one is
undefined. -/
def Ty.result (t : Ty) (v : Int) : Option (Val t) :=
  if h : t.InRange v then some ⟨v, h⟩ else if t.signed then none else some (t.wrap v)

inductive BinOp where
  | mul
  | div
  | rem
  | band
deriving DecidableEq, Repr

/-- An operator on two operands of the common type. A remainder is undefined where the quotient
is. -/
def BinOp.apply (op : BinOp) (x y : Val t) : Option (Val t) :=
  match op with
  | .mul => t.result (x.1 * y.1)
  | .div => if y.1 = 0 then none else t.result (x.1.tdiv y.1)
  | .rem =>
      if y.1 = 0 then none else (t.result (x.1.tdiv y.1)).bind fun _ => t.result (x.1.tmod y.1)
  | .band => some (t.ofBits (BitVec.ofInt t.bits x.1 &&& BitVec.ofInt t.bits y.1))

/-- Expressions, by their type. A truth value is an `int`. -/
inductive Expr : Ty → Type where
  | val {t : Ty} (x : Val t) : Expr t
  | cast {s : Ty} (t : Ty) (e : Expr s) : Expr t
  | bin {s t : Ty} (op : BinOp) (a : Expr s) (b : Expr t) : Expr (s.common t)
  | shr {t : Ty} (e : Expr t) (count : Nat) : Expr t
  | eq {s t : Ty} (a : Expr s) (b : Expr t) : Expr .i32
  | and {s t : Ty} (a : Expr s) (b : Expr t) : Expr .i32
  | cond {r s t : Ty} (c : Expr r) (a : Expr s) (b : Expr t) : Expr (s.common t)

/-- A truth value. -/
def truth (b : Bool) : Val .i32 := Ty.i32.wrap (if b then 1 else 0)

/-- The value of an expression, if it has one. -/
def Expr.eval : {t : Ty} → Expr t → Option (Val t)
  | _, .val x => some x
  | _, .cast t e => e.eval.map fun x => t.wrap x.1
  | _, @bin s t op a b =>
      a.eval.bind fun x => b.eval.bind fun y =>
        op.apply ((s.common t).wrap x.1) ((s.common t).wrap y.1)
  | _, @shr t e count =>
      e.eval.bind fun x => if count < t.bits then some (t.wrap (x.1 / 2 ^ count)) else none
  | _, @eq s t a b =>
      a.eval.bind fun x => b.eval.map fun y =>
        truth ((s.common t).wrap x.1 = (s.common t).wrap y.1)
  | _, .and a b =>
      a.eval.bind fun x =>
        if x.1 = 0 then some (truth false) else b.eval.map fun y => truth (y.1 ≠ 0)
  | _, @cond _ s t c a b =>
      c.eval.bind fun x =>
        if x.1 ≠ 0 then a.eval.map fun y => (s.common t).wrap y.1
        else b.eval.map fun y => (s.common t).wrap y.1

/-- **The expression is defined and has the value `v`.** -/
def Expr.Is (e : Expr t) (v : Int) : Prop := ∃ x, e.eval = some x ∧ x.1 = v

/-! ## Conversions -/

theorem Ty.wrap_val (t : Ty) (v : Int) :
    (t.wrap v).1 = if t.signed then v.bmod (2 ^ t.bits) else v % 2 ^ t.bits := by
  unfold Ty.wrap Ty.ofBits
  split
  · exact BitVec.toInt_ofInt v
  · have hpos : (0 : Int) < 2 ^ t.bits := Int.pow_pos (by omega)
    have hnn := Int.emod_nonneg v (ne_of_gt hpos)
    simp only [BitVec.toNat_ofInt]
    push_cast
    omega

/-- A value of the type is converted to itself. -/
theorem Ty.wrap_of_inRange {v : Int} (h : t.InRange v) : (t.wrap v).1 = v := by
  rw [t.wrap_val]
  cases t <;> simp [Ty.InRange, Ty.signed, Ty.bits, Int.bmod] at h ⊢ <;> omega

/-- A conversion through a type that is at least as wide is a conversion. -/
theorem Ty.wrap_wrap (h : s.bits ≤ t.bits) (v : Int) : s.wrap (t.wrap v).1 = s.wrap v := by
  apply Val.ext
  rw [s.wrap_val, s.wrap_val, t.wrap_val]
  cases s <;> cases t <;> simp only [Ty.signed, Ty.bits] at * <;> simp [Int.bmod] <;> omega

/-! ## Evaluating an expression, operator by operator -/

variable {a : Expr s} {b : Expr t} {e : Expr t} {x y v : Int}

theorem Expr.Is.val (z : Val t) : (Expr.val z).Is z.1 := ⟨z, rfl, rfl⟩

theorem Expr.Is.cast (t' : Ty) (h : e.Is v) : (e.cast t').Is (t'.wrap v).1 := by
  obtain ⟨z, he, rfl⟩ := h
  exact ⟨t'.wrap z.1, by rw [Expr.eval, he]; rfl, rfl⟩

theorem Expr.Is.castOf {t' : Ty} (h : e.Is v) (hv : t'.InRange v) : (e.cast t').Is v := by
  have hcast := h.cast t'
  rwa [t'.wrap_of_inRange hv] at hcast

theorem Ty.result_of_inRange (h : t.InRange v) : t.result v = some ⟨v, h⟩ := by
  unfold Ty.result
  rw [dif_pos h]

/-- Unsigned arithmetic is defined for all operands. -/
theorem Ty.result_of_unsigned (h : t.signed = false) : t.result v = some (t.wrap v) := by
  unfold Ty.result
  split
  · rename_i hv
    exact congrArg some (Val.ext (t.wrap_of_inRange hv).symm)
  · rw [h]
    rfl

theorem Expr.eval_bin {op : BinOp} (ha : a.Is x) (hb : b.Is y) :
    (Expr.bin op a b).eval = op.apply ((s.common t).wrap x) ((s.common t).wrap y) := by
  obtain ⟨z, ha, rfl⟩ := ha
  obtain ⟨w, hb, rfl⟩ := hb
  rw [Expr.eval, ha, hb, Option.bind_some, Option.bind_some]

variable {x' y' : Int}

/-! In the rules for operators `x'` and `y'` are the operands, converted to the common type. -/

theorem Expr.Is.mul (ha : a.Is x) (hb : b.Is y) (hx : ((s.common t).wrap x).1 = x')
    (hy : ((s.common t).wrap y).1 = y') (hxy : (s.common t).InRange (x' * y')) :
    (Expr.bin .mul a b).Is (x' * y') := by
  refine ⟨⟨x' * y', hxy⟩, ?_, rfl⟩
  rw [eval_bin ha hb]
  simp only [BinOp.apply, hx, hy]
  exact Ty.result_of_inRange hxy

/-- A product of unsigned type is the exact product up to a multiple of the number of values,
even when an operand had to be converted. -/
theorem Expr.Is.mulWrap (ha : a.Is x) (hb : b.Is y) (hc : (s.common t).signed = false) :
    (Expr.bin .mul a b).Is ((s.common t).wrap (x * y)).1 := by
  refine ⟨(s.common t).wrap (x * y), ?_, rfl⟩
  rw [eval_bin ha hb]
  refine (Ty.result_of_unsigned hc).trans (congrArg some (Val.ext ?_))
  simp only [Ty.wrap_val, hc, Bool.false_eq_true, if_false]
  exact (Int.mul_emod x y _).symm

theorem Expr.Is.div (ha : a.Is x) (hb : b.Is y) (hx : ((s.common t).wrap x).1 = x')
    (hy : ((s.common t).wrap y).1 = y') (hy0 : y' ≠ 0)
    (hxy : (s.common t).InRange (x'.tdiv y')) : (Expr.bin .div a b).Is (x'.tdiv y') := by
  refine ⟨⟨x'.tdiv y', hxy⟩, ?_, rfl⟩
  rw [eval_bin ha hb]
  simp only [BinOp.apply, hx, hy, if_neg hy0]
  exact Ty.result_of_inRange hxy

theorem Expr.Is.rem (ha : a.Is x) (hb : b.Is y) (hx : ((s.common t).wrap x).1 = x')
    (hy : ((s.common t).wrap y).1 = y') (hy0 : y' ≠ 0)
    (hxy : (s.common t).InRange (x'.tdiv y')) (hr : (s.common t).InRange (x'.tmod y')) :
    (Expr.bin .rem a b).Is (x'.tmod y') := by
  refine ⟨⟨x'.tmod y', hr⟩, ?_, rfl⟩
  rw [eval_bin ha hb]
  simp only [BinOp.apply, hx, hy, if_neg hy0, Ty.result_of_inRange hxy]
  exact Ty.result_of_inRange hr

/-- Masking with ones keeps the remainder. -/
theorem Expr.Is.mask {k : Nat} (ha : a.Is x) (hb : b.Is (2 ^ k - 1))
    (hc : (s.common t).signed = false) (hk : k < (s.common t).bits)
    (hx : (s.common t).InRange x) : (Expr.bin .band a b).Is (x % 2 ^ k) := by
  have hpow : (2 : Int) ^ k < 2 ^ (s.common t).bits := Int.pow_lt_pow_of_lt (by omega) hk
  have hpos : (0 : Int) < 2 ^ k := Int.pow_pos (by omega)
  have hmask : (s.common t).InRange (2 ^ k - 1) := by
    simp only [Ty.InRange, hc, Bool.false_eq_true, if_false]
    omega
  refine ⟨_, by rw [eval_bin ha hb]; rfl, ?_⟩
  rw [Ty.wrap_of_inRange hx, Ty.wrap_of_inRange hmask]
  simp only [Ty.InRange, hc, Bool.false_eq_true, if_false] at hx
  obtain ⟨n, rfl⟩ := Int.eq_ofNat_of_zero_le hx.1
  have hn : n < 2 ^ (s.common t).bits := by exact_mod_cast hx.2
  have hm : 2 ^ k - 1 < 2 ^ (s.common t).bits := by
    have : 2 ^ k < 2 ^ (s.common t).bits := by exact_mod_cast hpow
    omega
  have hcast : (2 ^ k - 1 : Int) = ((2 ^ k - 1 : Nat) : Int) := by
    rw [Nat.cast_sub (Nat.one_le_two_pow)]
    push_cast
    rfl
  simp only [Ty.ofBits, hc, Bool.false_eq_true, if_false, hcast, BitVec.ofInt_natCast,
    BitVec.toNat_and, BitVec.toNat_ofNat, Nat.mod_eq_of_lt hn, Nat.mod_eq_of_lt hm,
    Nat.and_two_pow_sub_one_eq_mod]
  push_cast
  rfl

theorem Expr.Is.shr {count : Nat} (h : e.Is v) (hlt : count < t.bits)
    (hv : t.InRange (v / 2 ^ count)) : (e.shr count).Is (v / 2 ^ count) := by
  obtain ⟨z, he, rfl⟩ := h
  exact ⟨t.wrap (z.1 / 2 ^ count), by rw [Expr.eval, he, Option.bind_some, if_pos hlt],
    Ty.wrap_of_inRange hv⟩

theorem truth_val (p : Bool) : (truth p).1 = if p then 1 else 0 := by
  cases p <;> decide

theorem Expr.Is.eq (ha : a.Is x) (hb : b.Is y) (hx : (s.common t).InRange x)
    (hy : (s.common t).InRange y) : (Expr.eq a b).Is (if x = y then 1 else 0) := by
  obtain ⟨z, ha, rfl⟩ := ha
  obtain ⟨w, hb, rfl⟩ := hb
  refine ⟨truth (z.1 = w.1), ?_, by simp [truth_val]⟩
  have hiff : (s.common t).wrap z.1 = (s.common t).wrap w.1 ↔ z.1 = w.1 := by
    constructor
    · intro h
      have hval := congrArg Subtype.val h
      rwa [Ty.wrap_of_inRange hx, Ty.wrap_of_inRange hy] at hval
    · intro h
      rw [h]
  rw [Expr.eval, ha, hb, Option.bind_some, Option.map_some]
  simp only [hiff]

theorem Expr.Is.and (ha : a.Is x) (hb : b.Is y) :
    (Expr.and a b).Is (if x ≠ 0 ∧ y ≠ 0 then 1 else 0) := by
  obtain ⟨z, ha, rfl⟩ := ha
  obtain ⟨w, hb, rfl⟩ := hb
  refine ⟨truth (z.1 ≠ 0 ∧ w.1 ≠ 0), ?_, by simp [truth_val]⟩
  rw [Expr.eval, ha, Option.bind_some]
  by_cases hz : z.1 = 0
  · simp [hz]
  · simp [hz, hb]

variable {r : Ty} {c : Expr r} {u : Int}

/-- Only the branch that is taken has to be defined. -/
theorem Expr.Is.condTrue (hc : c.Is u) (hu : u ≠ 0) (ha : a.Is x) (hx : (s.common t).InRange x) :
    (Expr.cond c a b).Is x := by
  obtain ⟨z, hc, rfl⟩ := hc
  obtain ⟨w, ha, rfl⟩ := ha
  exact ⟨(s.common t).wrap w.1, by rw [Expr.eval, hc, Option.bind_some, if_pos hu, ha]; rfl,
    Ty.wrap_of_inRange hx⟩

theorem Expr.Is.condFalse (hc : c.Is u) (hu : u = 0) (hb : b.Is y)
    (hy : (s.common t).InRange y) : (Expr.cond c a b).Is y := by
  obtain ⟨z, hc, rfl⟩ := hc
  obtain ⟨w, hb, rfl⟩ := hb
  exact ⟨(s.common t).wrap w.1, by
    rw [Expr.eval, hc, Option.bind_some, if_neg (not_not_intro hu), hb]; rfl,
    Ty.wrap_of_inRange hy⟩

end CInt
