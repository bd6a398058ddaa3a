import Mathlib.Data.BitVec

/-!
# Configuration

The constants of `config.h`, and the enumerations of `common.h` that the
pipeline stages share.
-/

namespace DreamCore

/-- `uint32_t`, where the value is data and wraps. -/
abbrev Word := BitVec 32

def fetchWidth : Nat := 4
def decodeWidth : Nat := 4
def renameWidth : Nat := 4
def integerIssueWidth : Nat := 2
def lsuIssueWidth : Nat := 3
def commitWidth : Nat := 4

def phyRegNum : Nat := 128
def archRegNum : Nat := 32

def fetch2DecodeFifoSize : Nat := 256
def decodeRenameFifoSize : Nat := 16
def integerIssueQueueSize : Nat := 16
def lsuIssueQueueSize : Nat := 16
def robSize : Nat := 64
def storeBufferSize : Nat := 16
def retiredStoreBufferSize : Nat := 16
def checkpointBufferSize : Nat := 64
def loadQueueSize : Nat := 32

def initPc : Word := 0x80000000
def memoryBase : Word := 0x80000000
def memorySize : Nat := 1048576
def clintBase : Word := 0x20000000
def clintSize : Nat := 0x10000

/-- `riscv_exception_t`. -/
inductive RiscvException where
  | instructionAddressMisaligned
  | instructionAccessFault
  | illegalInstruction
  | breakpoint
  | loadAddressMisaligned
  | loadAccessFault
  | storeAmoAddressMisaligned
  | storeAmoAccessFault
  | environmentCallFromUMode
  | environmentCallFromSMode
  | reserved10
  | environmentCallFromMMode
  | instructionPageFault
  | loadPageFault
  | reserved14
  | storeAmoPageFault
deriving DecidableEq, Repr

/-- The value the enumeration is cast to when it is written to `mcause`. -/
def RiscvException.toWord (e : RiscvException) : Word := BitVec.ofNat 32 e.ctorIdx

/-- The machine-mode members of `riscv_interrupt_t`, the only ones ever raised. -/
inductive RiscvInterrupt where
  | machineSoftware
  | machineTimer
  | machineExternal
deriving DecidableEq, Repr

/-- The value of the enumeration. -/
def RiscvInterrupt.toWord : RiscvInterrupt → Word
  | .machineSoftware => 3
  | .machineTimer => 7
  | .machineExternal => 11

/-- `bus_errno_t`. -/
inductive BusErrno where
  | none
  | error
deriving DecidableEq, Repr

/-- `pma_unit::is_cacheable` over the two fixed items the model registers: the lower half
of the address space is device space, the upper half is cacheable. -/
def isCacheable (addr : Word) : Bool := decide (0x80000000 ≤ addr)

end DreamCore
