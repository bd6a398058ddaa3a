import DreamCore.Config

/-!
# The CSR file

`csrfile.h` maps CSR numbers to registers; every register class has a write
filter. The table below is the one `cycle_model`'s constructor builds. The ISA
model registers the same classes but not the four load counters, which is the
only difference between the two tables.
-/

namespace DreamCore

def csrMstatus : Nat := 0x300
def csrMie : Nat := 0x304
def csrMtvec : Nat := 0x305
def csrMepc : Nat := 0x341
def csrMcause : Nat := 0x342
def csrMtval : Nat := 0x343

/-- The counters only the cycle model maps: `loadnum` to `conflictloadnumh`. -/
def csrLoadCounter (addr : Nat) : Bool :=
  decide (0xB10 ≤ addr ∧ addr ≤ 0xB13) || decide (0xB90 ≤ addr ∧ addr ≤ 0xB93)

/-- The numbers mapped read-only in both models. -/
def csrReadOnly (addr : Nat) : Bool :=
  decide (0xf11 ≤ addr ∧ addr ≤ 0xf15) || decide (0xB03 ≤ addr ∧ addr ≤ 0xB06)
    || decide (0xB83 ≤ addr ∧ addr ≤ 0xB86)

/-- The numbers mapped read-write in both models. -/
def csrWritable (addr : Nat) : Bool :=
  addr ∈ [0x300, 0x301, 0x304, 0x305, 0x306, 0x310, 0x340, 0x341, 0x342, 0x343, 0x344,
      0x800, 0x804, 0xB00, 0xB02, 0xB80, 0xB82]
    || decide (0x3A0 ≤ addr ∧ addr ≤ 0x3AF) || decide (0x3B0 ≤ addr ∧ addr ≤ 0x3EF)

/-- The value a register class stores when `value` is written. -/
def csrFilter (addr : Nat) (value : Word) : Word :=
  if addr = 0x300 then value &&& 0x88
  else if addr = 0x304 ∨ addr = 0x344 then value &&& 0x888
  else if addr = 0x305 ∨ addr = 0x341 then value &&& ~~~0x3
  else if addr = 0x306 then value &&& 0x7
  else if addr = 0x310 ∨ addr = 0x800 ∨ (0x3A0 ≤ addr ∧ addr ≤ 0x3EF) then 0
  else value

/-- The registers of `csrfile`, one snapshot. -/
abbrev CsrFile := Nat → Word

namespace CsrFile

/-- `write_sys`. -/
def writeSys (new : CsrFile) (addr : Nat) (value : Word) : CsrFile :=
  Function.update new addr (csrFilter addr value)

/-- `read_sys`. -/
def readSys (cur : CsrFile) (addr : Nat) : Word := cur addr

/-- `write`, whose failing check leaves the file alone. -/
def write (new : CsrFile) (addr : Nat) (value : Word) : CsrFile :=
  if csrWritable addr then writeSys new addr value else new

/-- The registers after reset: `marchid`, `mimpid`, `misa` and `finish` start with a value. -/
def reset : CsrFile := fun addr =>
  if addr = 0xf12 then 0x19981001
  else if addr = 0xf13 then 0x20220201
  else if addr = 0x301 then 0x40001100
  else if addr = 0x804 then 0xFFFFFFFF
  else 0

end CsrFile

/-! ## What an instruction sees of the file

`charfifo` is a register class of its own: a read looks into the receive queue, and
the write filter pushes into the send queue or pops the receive queue before it
stores zero. The pipeline only ever writes through the file, so the queues are kept
beside it.
-/

def csrCharfifo : Nat := 0x800

/-- The two queues of `charfifo`, oldest character first. -/
structure CharFifo where
  send : List (BitVec 8) := []
  rev : List (BitVec 8) := []

/-- `charfifo::read`. The character is signed, so the top bits follow it. -/
def CharFifo.read (q : CharFifo) : Word :=
  match q.rev with
  | [] => 0
  | ch :: _ => 0x80000000 ||| ch.signExtend 32

/-- What `charfifo::filter` does to the queues. -/
def CharFifo.write (q : CharFifo) (value : Word) : CharFifo :=
  if value.getLsbD 31 then { q with rev := q.rev.tail }
  else { q with send := q.send ++ [value.setWidth 8] }

/-- The registers and the queues. -/
structure CsrBank where
  regs : CsrFile
  queues : CharFifo

namespace CsrBank

/-- `csr->read()` of the register class mapped at `addr`. -/
def value (csr : CsrBank) (addr : Nat) : Word :=
  if addr = csrCharfifo then csr.queues.read else csr.regs.readSys addr

/-- `csr->write(value)` of the register class mapped at `addr`. -/
def store (csr : CsrBank) (addr : Nat) (value : Word) : CsrBank where
  regs := csr.regs.writeSys addr value
  queues := if addr = csrCharfifo then csr.queues.write value else csr.queues

end CsrBank

/-- What `csrfile::map` was called with. -/
structure CsrTable where
  mapped : Nat → Bool
  readonly : Nat → Bool

/-- The table of the cycle model's constructor. -/
def cycleCsrTable : CsrTable where
  mapped addr := csrReadOnly addr || csrLoadCounter addr || csrWritable addr
  readonly addr := csrReadOnly addr || csrLoadCounter addr

/-- The table of the ISA model's constructor. -/
def isaCsrTable : CsrTable where
  mapped addr := csrReadOnly addr || csrWritable addr
  readonly addr := csrReadOnly addr

namespace CsrTable

/-- `csrfile::write_check`. -/
def writeCheck (t : CsrTable) (addr : Nat) : Bool := t.mapped addr && !t.readonly addr

/-- `csrfile::read`: whether it succeeds, and the value it leaves in a variable that was zero. -/
def read (t : CsrTable) (csr : CsrBank) (addr : Nat) : Bool × Word :=
  if t.mapped addr then (true, csr.value addr) else (false, 0)

/-- `csrfile::write`. -/
def write (t : CsrTable) (csr : CsrBank) (addr : Nat) (value : Word) : Bool × CsrBank :=
  if t.writeCheck addr then (true, csr.store addr value) else (false, csr)

end CsrTable

/-- `mstatus.set_mpie(mstatus.get_mie()); mstatus.set_mie(false)`. -/
def mstatusEnter (mstatus : Word) : Word :=
  ((mstatus &&& 0x88) &&& ~~~0x88) ||| (if mstatus.getLsbD 3 then 0x80 else 0)

/-- `mstatus.set_mie(mstatus.get_mpie())`. -/
def mstatusLeave (mstatus : Word) : Word :=
  ((mstatus &&& 0x88) &&& ~~~0x8) ||| (if mstatus.getLsbD 7 then 0x8 else 0)

end DreamCore
