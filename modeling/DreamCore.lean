import DreamCore.Isa.Zicsr
import DreamCore.Isa.Rv32m
import DreamCore.Frontend.Returns
import DreamCore.Component.FreeListRestore
import DreamCore.Frontend.Faults
import DreamCore.Backend.Allocation
import DreamCore.Backend.Checkpoints
import DreamCore.Backend.Conservation
import DreamCore.Backend.Fences
import DreamCore.Backend.Recovery
import DreamCore.Machine.Coherence
import DreamCore.Machine.Continuity
import DreamCore.Machine.History
import DreamCore.Machine.Interrupt
import DreamCore.Memory.DeviceOrder
import DreamCore.Memory.Drain
import DreamCore.Memory.Pairing
import DreamCore.Memory.Forward
import DreamCore.Memory.Elf
import DreamCore.Backend.Violation
import DreamCore.Backend.Mapping
import DreamCore.Backend.Reporting
import DreamCore.Backend.ValidBits
import DreamCore.Backend.Occupancy
import DreamCore.Backend.ProgramOrder
import DreamCore.Backend.Selection
import DreamCore.Backend.Truthful
import DreamCore.Backend.WaitTable
import DreamCore.Backend.WideCommit
import DreamCore.Backend.LiveRegs
import DreamCore.Machine.Refinement
import DreamCore.Machine.Exceptions
