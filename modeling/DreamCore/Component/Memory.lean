import DreamCore.Config

/-!
# Bytes and words

The byte array behind the memory slave. A wider access of the source goes through
a pointer cast, which on the machines it runs on is little-endian.
-/

namespace DreamCore

/-- The bytes of a memory, by their offset. -/
abbrev Mem := Nat → BitVec 8

namespace Mem

/-- The `size` bytes from `addr` on, as the value of a wider load. -/
def read (m : Mem) (addr : Nat) : Nat → Word
  | 0 => 0
  | size + 1 => read m (addr + 1) size <<< 8 ||| (m addr).setWidth 32

/-- Storing the `size` low bytes of `value` from `addr` on. -/
def write (m : Mem) (addr size : Nat) (value : Word) : Mem := fun i =>
  if addr ≤ i ∧ i < addr + size then value.extractLsb' (8 * (i - addr)) 8 else m i

/-- **A repeated store changes nothing.** -/
theorem write_write (m : Mem) (addr size : Nat) (value : Word) :
    (m.write addr size value).write addr size value = m.write addr size value := by
  funext i
  simp only [write]
  split <;> rfl

end Mem

end DreamCore
