import DreamCore.Config

/-!
# The CLINT

The registers of `clint.h`, and the switch over their offsets that both models
share. Only whole words are registers; what the two models do about the narrower
accesses differs, and is said where it is modelled.
-/

namespace DreamCore

/-- The registers of the CLINT. -/
structure Clint where
  msip : Bool := false
  mtimecmp : BitVec 64 := 0
  mtime : BitVec 64 := 0

namespace Clint

def msipAddr : Nat := 0x0
def mtimecmpAddr : Nat := 0x4000
def mtimeAddr : Nat := 0xBFF8

/-- The low half of a 64-bit register replaced, the high half kept. -/
def setLow (reg : BitVec 64) (value : Word) : BitVec 64 :=
  (reg &&& 0xFFFFFFFF00000000) ||| value.setWidth 64

/-- The high half of a 64-bit register replaced, the low half kept. -/
def setHigh (reg : BitVec 64) (value : Word) : BitVec 64 :=
  (reg &&& 0xFFFFFFFF) ||| value.setWidth 64 <<< 32

/-- `_read32`. -/
def read32 (c : Clint) (addr : Nat) : Word :=
  if addr = msipAddr then (if c.msip then 1 else 0)
  else if addr = mtimecmpAddr then c.mtimecmp.setWidth 32
  else if addr = mtimecmpAddr + 4 then (c.mtimecmp >>> 32).setWidth 32
  else if addr = mtimeAddr then c.mtime.setWidth 32
  else if addr = mtimeAddr + 4 then (c.mtime >>> 32).setWidth 32
  else 0

/-- `_write32`, on the registers it finds; `none` is its `default` case. -/
def write32 (c : Clint) (addr : Nat) (value : Word) : Option Clint :=
  if addr = msipAddr then some { c with msip := value.getLsbD 0 }
  else if addr = mtimecmpAddr then some { c with mtimecmp := setLow c.mtimecmp value }
  else if addr = mtimecmpAddr + 4 then some { c with mtimecmp := setHigh c.mtimecmp value }
  else if addr = mtimeAddr then some { c with mtime := setLow c.mtime value }
  else if addr = mtimeAddr + 4 then some { c with mtime := setHigh c.mtime value }
  else none

end Clint

end DreamCore
