import DreamCore.Component.AddressMap
import DreamCore.Component.Memory

/-!
# The instruction side of the bus

`bus::read_instruction` and the memory slave behind it. A slave that refuses an
offset does not answer at all; where there is no slave the bus answers with zeros.
The answer is registered: who asks in one cycle is answered in the next.
-/

namespace DreamCore

/-- The words of a group, as the memory slave hands them over. It passes a pointer on, so that
a group at its end runs past it; what lies there is whatever `mem` says. -/
def memoryGroup (mem : Mem) (offset : Word) (i : Fin fetchWidth) : Word :=
  mem.read (offset.toNat + 4 * i.val) 4

/-- `read_instruction`, the bus and the slave. -/
def busReadInstruction (mem : Mem) (addr : Word) : Option (Fin fetchWidth → Word) :=
  if memorySlave.maps addr true then
    if memorySlave.check (memorySlave.offset addr) 4 then
      some (memoryGroup mem (memorySlave.offset addr))
    else none
  else some fun _ => 0

theorem checkAlign_iff (addr : Word) : checkAlign addr 4 = true ↔ addr.toNat % 4 = 0 := by
  have hand : (addr &&& 3#32).toNat = addr.toNat % 4 := by
    rw [BitVec.toNat_and]
    exact Nat.and_two_pow_sub_one_eq_mod addr.toNat 2
  unfold checkAlign
  rw [beq_iff_eq, ← hand]
  exact ⟨fun h => by rw [show addr &&& 3#32 = 0 from h]; rfl,
    fun h => BitVec.eq_of_toNat_eq h⟩

theorem memorySlave_maps (addr : Word) : memorySlave.maps addr true = true
    ↔ 0x80000000 ≤ addr.toNat ∧ addr.toNat < 0x80100000 := by
  have hend : memorySlave.base + BitVec.ofNat 32 memorySlave.size = 0x80100000#32 := by decide
  unfold SlaveInfo.maps
  rw [hend, Bool.and_eq_true, Bool.and_eq_true, decide_eq_true_eq, decide_eq_true_eq]
  exact ⟨fun h => h.1, fun h => ⟨h, rfl⟩⟩

/-- **The memory slave refuses exactly the misaligned addresses among its own.** -/
theorem memorySlave_check {addr : Word} (h : memorySlave.maps addr true = true) :
    memorySlave.check (memorySlave.offset addr) 4 = checkAlign addr 4 := by
  obtain ⟨hlo, hhi⟩ := (memorySlave_maps addr).mp h
  have hoffset : (memorySlave.offset addr).toNat = addr.toNat - 0x80000000 := by
    unfold SlaveInfo.offset
    rw [BitVec.toNat_sub_of_le (show memorySlave.base ≤ addr from hlo)]
    rfl
  have halign : checkAlign (memorySlave.offset addr) 4 = checkAlign addr 4 := by
    rw [Bool.eq_iff_iff, checkAlign_iff, checkAlign_iff, hoffset]
    omega
  unfold SlaveInfo.check
  rw [halign, hoffset, show memorySlave.size = 0x100000 from rfl]
  cases ha : checkAlign addr 4 with
  | false => rfl
  | true =>
    have hmod := (checkAlign_iff addr).mp ha
    rw [decide_eq_true (by omega), decide_eq_true (by omega)]
    rfl

end DreamCore
