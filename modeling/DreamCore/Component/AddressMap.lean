import DreamCore.Config

/-!
# The address map

`bus::find_slave_info` and `slave_base::check`, which both models have. The bus
finds the slave an address belongs to; the slave looks at the offset once more and
refuses what is not aligned or not inside.
-/

namespace DreamCore

/-- `bus::check_align`. -/
def checkAlign (addr : Word) (accessSize : Nat) : Bool :=
  addr &&& (BitVec.ofNat 32 accessSize - 1) == 0

/-- `slave_info_t`, but for the slave. -/
structure SlaveInfo where
  base : Word
  size : Nat
  supportFetch : Bool

namespace SlaveInfo

/-- The test of `find_slave_info` for one slave. -/
def maps (s : SlaveInfo) (addr : Word) (isFetch : Bool) : Bool :=
  decide (s.base ≤ addr) && decide (addr < s.base + BitVec.ofNat 32 s.size)
    && (!isFetch || s.supportFetch)

/-- What the slave is handed instead of the address. -/
def offset (s : SlaveInfo) (addr : Word) : Word := addr - s.base

/-- `slave_base::check`. -/
def check (s : SlaveInfo) (offset : Word) (accessSize : Nat) : Bool :=
  checkAlign offset accessSize && decide (offset.toNat < s.size)
    && decide (accessSize ≤ s.size - offset.toNat)

end SlaveInfo

/-- The slave at `MEMORY_BASE`. -/
def memorySlave : SlaveInfo := ⟨memoryBase, memorySize, true⟩

/-- The slave at `CLINT_BASE`. -/
def clintSlave : SlaveInfo := ⟨clintBase, clintSize, false⟩

/-- **The test on the low bits is divisibility.** -/
theorem checkAlign_pow (addr : Word) (k : Nat) (hk : k ≤ 31) :
    checkAlign addr (2 ^ k) = true ↔ addr.toNat % 2 ^ k = 0 := by
  have hsize : (BitVec.ofNat 32 (2 ^ k) - 1).toNat = 2 ^ k - 1 := by
    have hle : 2 ^ k ≤ 2 ^ 31 := Nat.pow_le_pow_right (by decide) hk
    have hpos : 0 < 2 ^ k := Nat.two_pow_pos k
    have hof : (BitVec.ofNat 32 (2 ^ k)).toNat = 2 ^ k := by
      rw [BitVec.toNat_ofNat]
      exact Nat.mod_eq_of_lt (by omega)
    rw [BitVec.toNat_sub_of_le, hof]
    · rfl
    · rw [BitVec.le_def, hof]
      exact hpos
  have hand : (addr &&& (BitVec.ofNat 32 (2 ^ k) - 1)).toNat = addr.toNat % 2 ^ k := by
    rw [BitVec.toNat_and, hsize]
    exact Nat.and_two_pow_sub_one_eq_mod addr.toNat k
  unfold checkAlign
  rw [beq_iff_eq, ← hand]
  exact ⟨fun h => by rw [h]; rfl, fun h => BitVec.eq_of_toNat_eq h⟩

end DreamCore
