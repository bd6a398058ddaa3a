import DreamCore.Lib.Looks
import DreamCore.Memory.SysAccess

/-!
# Loading an ELF file

`load_elf` and the `load` functions of the two models. The loader takes a file
apart without knowing how much of it there is: it reads the fields of the header
and of the program headers where the file says they are, and the sums in its
checks are of 32 bits. A byte read behind the end of the file, or written behind
the end of the image, is `outside` here.

What the image should show is said by the program headers alone: at every address
the last segment to cover it counts.
-/

namespace DreamCore

open Looks

/-! ## The file -/

/-- A field of `Elf32_Ehdr` or `Elf32_Phdr`. -/
structure ElfField where
  offset : Nat
  size : Nat
  pos : 0 < size := by decide

namespace ElfField

def eIdent (i : Nat) : ElfField := ⟨i, 1, by decide⟩
def eType : ElfField := { offset := 16, size := 2 }
def eMachine : ElfField := { offset := 18, size := 2 }
def eVersion : ElfField := { offset := 20, size := 4 }
def eEntry : ElfField := { offset := 24, size := 4 }
def ePhoff : ElfField := { offset := 28, size := 4 }
def eShoff : ElfField := { offset := 32, size := 4 }
def ePhentsize : ElfField := { offset := 42, size := 2 }
def ePhnum : ElfField := { offset := 44, size := 2 }
def eShentsize : ElfField := { offset := 46, size := 2 }
def eShnum : ElfField := { offset := 48, size := 2 }

def pType : ElfField := { offset := 0, size := 4 }
def pOffset : ElfField := { offset := 4, size := 4 }
def pPaddr : ElfField := { offset := 12, size := 4 }
def pFilesz : ElfField := { offset := 16, size := 4 }
def pMemsz : ElfField := { offset := 20, size := 4 }

end ElfField

/-- `sizeof(elf_phdr_t)`. -/
def phdrSize : Nat := 32

/-- `sizeof(elf_shdr_t)`. -/
def shdrSize : Nat := 40

/-- `PT_LOAD`. -/
def ptLoad : Word := 1

/-- What `load_elf` prints before it leaves. -/
inductive ElfError where
  | notValid
  | not32Bit
  | notLittleEndian
  | notExecutable
  | notRiscv
  | badEntry
  | badAddress (paddr : Word)
  | tooLarge

/-- Go on, or leave. -/
def require (ok : Bool) (e : ElfError) : Outcome ElfError Unit :=
  if ok then .done () else .rejected e

/-- An image of the memory from `MEMORY_BASE` on. -/
structure Image where
  size : Nat
  bytes : RawMem size

namespace RawMem

variable {n : Nat}

/-- A field of the structure at `base`. -/
def field (file : RawMem n) (base : Nat) (f : ElfField) : Outcome ElfError Word :=
  match file.load (base + f.offset) f.size with
  | some v => .done v
  | none => .outside

/-- `memset` with zeros. -/
def zero (n : Nat) : RawMem n := fun _ => 0

/-- `memcpy`. -/
def memcpy {m : Nat} (bin : RawMem m) (dest : Nat) (file : RawMem n) (src len : Nat) :
    Outcome ElfError (RawMem m) :=
  if len = 0 then .done bin
  else if dest + len ≤ m ∧ src + len ≤ n then
    .done fun i => if dest ≤ i.1 ∧ i.1 < dest + len then file.byte (src + (i.1 - dest)) else bin i
  else .outside

end RawMem

/-! ## `load_elf` -/

/-- A check of one field of the header. -/
structure HeaderCheck where
  field : ElfField
  ok : Word → Bool
  error : ElfError

/-- The checks of the header, in their order. -/
def headerChecks : List HeaderCheck :=
  [⟨.eIdent 0, fun v => v == 0x7F, .notValid⟩,
    ⟨.eIdent 1, fun v => v == 0x45, .notValid⟩,
    ⟨.eIdent 2, fun v => v == 0x4C, .notValid⟩,
    ⟨.eIdent 3, fun v => v == 0x46, .notValid⟩,
    ⟨.eIdent 4, fun v => v == 1, .not32Bit⟩,
    ⟨.eIdent 5, fun v => v == 1, .notLittleEndian⟩,
    ⟨.eIdent 6, fun v => v == 1, .notValid⟩,
    ⟨.eType, fun v => v == 2, .notExecutable⟩,
    ⟨.eMachine, fun v => v == 243, .notRiscv⟩,
    ⟨.eVersion, fun v => v == 1, .notValid⟩,
    ⟨.ePhoff, fun v => v != 0, .notValid⟩,
    ⟨.ePhentsize, fun v => v.toNat == phdrSize, .notValid⟩,
    ⟨.ePhnum, fun v => v != 0, .notValid⟩,
    ⟨.eShoff, fun v => v != 0, .notValid⟩,
    ⟨.eShentsize, fun v => v.toNat == shdrSize, .notValid⟩,
    ⟨.eShnum, fun v => v != 0, .notValid⟩,
    ⟨.eEntry, fun v => v == initPc, .badEntry⟩]

section Load

variable {n : Nat}

def checkHeader (file : RawMem n) : List HeaderCheck → Outcome ElfError Unit
  | [] => pure ()
  | c :: cs => do
      let v ← file.field 0 c.field
      require (c.ok v) c.error
      checkHeader file cs

/-- The body of the first loop: the bounds of one segment, and `bin_size` after it. -/
def boundSegment (file : RawMem n) (phdr binSize : Nat) : Outcome ElfError Nat := do
  let type ← file.field phdr .pType
  if type ≠ ptLoad then pure binSize
  else do
    let offset ← file.field phdr .pOffset
    let filesz ← file.field phdr .pFilesz
    -- the sum has 32 bits, the size of the file has not
    require ((offset + filesz).toNat ≤ n) .notValid
    let paddr ← file.field phdr .pPaddr
    require (memoryBase ≤ paddr) (.badAddress paddr)
    let memsz ← file.field phdr .pMemsz
    require (paddr + memsz ≤ memoryBase + BitVec.ofNat 32 memorySize) .tooLarge
    require (filesz ≤ memsz) .notValid
    pure (max binSize (paddr + memsz - memoryBase).toNat)

/-- The first loop, over the indices of the program headers. -/
def boundSegments (file : RawMem n) (phoff : Nat) : List Nat → Nat → Outcome ElfError Nat
  | [], binSize => pure binSize
  | i :: is, binSize => do
      let binSize ← boundSegment file (phoff + phdrSize * i) binSize
      boundSegments file phoff is binSize

/-- All checks, up to where the image is allocated. -/
def checkElf (file : RawMem n) : Outcome ElfError Nat := do
  checkHeader file headerChecks
  let phoff ← file.field 0 .ePhoff
  let phnum ← file.field 0 .ePhnum
  let binSize ← boundSegments file phoff.toNat (List.range phnum.toNat) 0
  require (binSize ≤ memorySize) .tooLarge
  pure binSize

/-- The body of the second loop. -/
def copySegment {m : Nat} (file : RawMem n) (phdr : Nat) (bin : RawMem m) :
    Outcome ElfError (RawMem m) := do
  let type ← file.field phdr .pType
  if type ≠ ptLoad then pure bin
  else do
    let paddr ← file.field phdr .pPaddr
    let offset ← file.field phdr .pOffset
    let filesz ← file.field phdr .pFilesz
    bin.memcpy (paddr.toNat - memoryBase.toNat) file offset.toNat filesz.toNat

/-- The second loop. -/
def copySegments {m : Nat} (file : RawMem n) (phoff : Nat) :
    List Nat → RawMem m → Outcome ElfError (RawMem m)
  | [], bin => pure bin
  | i :: is, bin => do
      let bin ← copySegment file (phoff + phdrSize * i) bin
      copySegments file phoff is bin

/-- `load_elf` of a file that could be opened. -/
def loadElf (file : RawMem n) : Outcome ElfError Image := do
  let binSize ← checkElf file
  let phoff ← file.field 0 .ePhoff
  let phnum ← file.field 0 .ePhnum
  let bin ← copySegments file phoff.toNat (List.range phnum.toNat) (RawMem.zero binSize)
  pure ⟨binSize, bin⟩

end Load

/-! ## `load` -/

namespace SlaveBus

/-- `cycle_model::load`; `verify_only` ends the program where the image does not fit. -/
def load (b : SlaveBus) (im : Image) : Option SlaveBus :=
  if im.size < memorySize then
    b.sysWrites ((List.range im.size).map fun i =>
      .write8 (memoryBase + BitVec.ofNat 32 i) (im.bytes.byte i))
  else none

/-- `bus::write8` of the ISA model: `_write8` of its slaves stores at once, and what the other
`slave_base` tests is verified. -/
def isaWrite8 (b : SlaveBus) (addr : Word) (value : BitVec 8) : Option SlaveBus :=
  match b.find addr false with
  | some (i, d) =>
      if d.range.slave.check (d.range.slave.offset addr) 1 then
        (d.slave.storeSys (d.range.slave.offset addr).toNat 1 (value.setWidth 32)).map fun s =>
          { b with devices := b.devices.set i ⟨d.range, s⟩ }
      else none
  | none => some b

/-- The loop of `isa_model::load`. -/
def isaWrites (b : SlaveBus) (im : Image) : List Nat → Option SlaveBus
  | [] => some b
  | i :: is =>
      (b.isaWrite8 (memoryBase + BitVec.ofNat 32 i) (im.bytes.byte i)).bind fun b =>
        isaWrites b im is

/-- `isa_model::load`. -/
def isaLoad (b : SlaveBus) (im : Image) : Option SlaveBus :=
  if im.size < memorySize then b.isaWrites im (List.range im.size) else none

end SlaveBus

/-- The range of the CLINT. -/
def clintRange : BusRange := ⟨clintBase, BitVec.ofNat 32 clintSize, false⟩

/-- The bus of the ISA model after its reset. -/
def isaBus : SlaveBus :=
  .mapped [⟨memoryRange, .memory (RawMem.zero _) 0 0⟩, ⟨clintRange, .clint⟩]

/-! ## What the program headers say -/

/-- A program header. -/
structure Phdr where
  type : Word
  offset : Word
  paddr : Word
  filesz : Word
  memsz : Word

namespace Phdr

def isLoad (p : Phdr) : Bool := p.type == ptLoad

/-- The address lies in the segment. -/
def covers (p : Phdr) (a : Nat) : Bool :=
  p.paddr.toNat ≤ a && a < p.paddr.toNat + p.memsz.toNat

/-- The address lies in the part that the file has. -/
def inFile (p : Phdr) (a : Nat) : Bool :=
  p.paddr.toNat ≤ a && a < p.paddr.toNat + p.filesz.toNat

/-- Where the segment ends in the image, in 32 bits. -/
def extent (p : Phdr) : Nat := (p.paddr + p.memsz - memoryBase).toNat

end Phdr

namespace RawMem

variable {n : Nat}

/-- A field, the bytes behind the end read as zero. -/
def fieldAt (file : RawMem n) (base : Nat) (f : ElfField) : Word :=
  littleEndian ((List.range' (base + f.offset) f.size).map file.byte)

def phdrAt (file : RawMem n) (phdr : Nat) : Phdr where
  type := file.fieldAt phdr .pType
  offset := file.fieldAt phdr .pOffset
  paddr := file.fieldAt phdr .pPaddr
  filesz := file.fieldAt phdr .pFilesz
  memsz := file.fieldAt phdr .pMemsz

/-- Where program header `i` is. -/
def phdrPlace (file : RawMem n) (i : Nat) : Nat :=
  (file.fieldAt 0 .ePhoff).toNat + phdrSize * i

/-- The indices of the program headers. -/
def phdrs (file : RawMem n) : List Nat := List.range (file.fieldAt 0 .ePhnum).toNat

/-- The `PT_LOAD` segments, in their order. -/
def segments (file : RawMem n) : List Phdr :=
  (file.phdrs.map fun i => file.phdrAt (file.phdrPlace i)).filter Phdr.isLoad

/-- The byte of the file that a segment has at an address. -/
def segmentByte (file : RawMem n) (p : Phdr) (a : Nat) : BitVec 8 :=
  file.byte (p.offset.toNat + (a - p.paddr.toNat))

end RawMem

/-- The last segment with a property. -/
def lastWith (p : Phdr → Bool) (segments : List Phdr) : Option Phdr := segments.reverse.find? p

/-- **The byte at an address**, by the program headers. -/
def elfByte {n : Nat} (file : RawMem n) (a : Nat) : BitVec 8 :=
  match lastWith (·.covers a) file.segments with
  | some p => if p.inFile a then file.segmentByte p a else 0
  | none => 0

/-- An address of the memory. -/
def InMemory (a : Nat) : Prop := memoryBase.toNat ≤ a ∧ a < memoryBase.toNat + memorySize

/-- **Loading**: nothing outside the file or the image is touched, and what is returned shows the
segments and is taken by both models. -/
structure LoadsRight {n : Nat} (file : RawMem n) : Prop where
  inside : loadElf file ≠ .outside
  shows : ∀ im, loadElf file = .done im → ∀ a, InMemory a →
    im.bytes.byte (a - memoryBase.toNat) = elfByte file a
  taken : ∀ im, loadElf file = .done im →
    (clearedBus.load im).isSome ∧ (isaBus.isaLoad im).isSome

/-! ## When it does -/

section Conditions

variable {n : Nat} (file : RawMem n)

/-- A field is read. -/
def fieldLook (base : Nat) (f : ElfField) : Look := ⟨base + f.offset + f.size, true⟩

/-- The fields of the header, and the checks of them. -/
def headerLooks (cs : List HeaderCheck) : List Look :=
  cs.flatMap fun c => [fieldLook 0 c.field, ⟨0, c.ok (file.fieldAt 0 c.field)⟩]

/-- Those of one program header: of a segment that is not loaded only `p_type` is looked at. -/
def phdrLooks (phdr : Nat) : List Look :=
  let p := file.phdrAt phdr
  fieldLook phdr .pType :: if p.isLoad then
    [fieldLook phdr .pOffset, fieldLook phdr .pFilesz, ⟨0, (p.offset + p.filesz).toNat ≤ n⟩,
      fieldLook phdr .pPaddr, ⟨0, memoryBase ≤ p.paddr⟩, fieldLook phdr .pMemsz,
      ⟨0, p.paddr + p.memsz ≤ memoryBase + BitVec.ofNat 32 memorySize⟩, ⟨0, p.filesz ≤ p.memsz⟩]
  else []

/-- `bin_size`. -/
def binSize : Nat := file.segments.foldl (fun size p => max size p.extent) 0

/-- All that the loader looks at and checks. -/
def looks : List Look :=
  headerLooks file headerChecks ++ ([fieldLook 0 .ePhoff] ++ ([fieldLook 0 .ePhnum] ++
    (file.phdrs.flatMap (fun i => phdrLooks file (file.phdrPlace i)) ++
      [⟨0, binSize file ≤ memorySize⟩])))

end Conditions

/-- **What the loader does not check.** -/
structure Loadable {n : Nat} (file : RawMem n) : Prop where
  /-- The headers lie in the file, up to the first check that fails. -/
  headers : Inside n (looks file)
  /-- The bytes of a segment lie in the file, where its 32-bit sum does. -/
  source : Passes (looks file) → ∀ p ∈ file.segments, p.filesz ≠ 0 →
    p.offset.toNat + p.filesz.toNat ≤ n
  /-- They do not end behind every segment's 32-bit end. -/
  dest : Passes (looks file) → ∀ p ∈ file.segments, p.filesz ≠ 0 →
    ∃ q ∈ file.segments, p.paddr.toNat - memoryBase.toNat + p.filesz.toNat ≤ q.extent
  /-- Where the last segment has only zeros, no segment before it has another byte of the file. -/
  zeros : Passes (looks file) → ∀ a, InMemory a → ∀ p q,
    lastWith (·.covers a) file.segments = some p → p.inFile a = false →
    lastWith (·.inFile a) file.segments = some q → file.segmentByte q a = 0
  /-- No segment ends where the memory does. -/
  room : Passes (looks file) → ∀ p ∈ file.segments, p.extent ≠ memorySize

/-! ## Reading and checking -/

namespace RawMem

variable {n : Nat} (file : RawMem n)

theorem byte_lt {k : Nat} (h : k < n) : file.byte k = file ⟨k, h⟩ := by
  unfold byte get
  rw [dif_pos h]
  rfl

theorem byte_end {k : Nat} (h : ¬ k < n) : file.byte k = 0 := by
  unfold byte get
  rw [dif_neg h]
  rfl

theorem field_inside {base : Nat} {f : ElfField} (h : base + f.offset + f.size ≤ n) :
    file.field base f = .done (file.fieldAt base f) := by
  rw [field, file.load_bytes h]
  rfl

theorem field_outside {base : Nat} {f : ElfField} (h : ¬ base + f.offset + f.size ≤ n) :
    file.field base f = .outside := by
  unfold field
  cases hload : file.load (base + f.offset) f.size with
  | some v => exact absurd (le_of_load f.pos hload) h
  | none => rfl

theorem field_performs (base : Nat) (f : ElfField) :
    Performs n (file.field base f) [fieldLook base f] (file.fieldAt base f) :=
  .read file.field_inside file.field_outside

end RawMem

section Checks

variable {n : Nat} (file : RawMem n)

theorem require_performs (ok : Bool) (e : ElfError) : Performs n (require ok e) [⟨0, ok⟩] () :=
  .check e ok

theorem checkHeader_performs (cs : List HeaderCheck) :
    Performs n (checkHeader file cs) (headerLooks file cs) () := by
  induction cs with
  | nil => exact .pure ()
  | cons c cs ih =>
      exact (file.field_performs 0 c.field).bind fun _ _ =>
        (require_performs _ c.error).bind fun _ _ => ih

/-- `bin_size` after one more program header. -/
def sizeAfter (size : Nat) (p : Phdr) : Nat := if p.isLoad then max size p.extent else size

theorem boundSegment_performs (phdr size : Nat) :
    Performs n (boundSegment file phdr size) (phdrLooks file phdr)
      (sizeAfter size (file.phdrAt phdr)) := by
  have hfield (f : ElfField) := file.field_performs phdr f
  refine (hfield .pType).bind fun _ _ => ?_
  by_cases hload : file.fieldAt phdr .pType = ptLoad
  · have hp : (file.phdrAt phdr).isLoad = true := beq_iff_eq.mpr hload
    rw [if_neg (not_not.mpr hload), sizeAfter, if_pos hp]
    refine .congr ?_ (if_pos hp).symm
    exact (hfield .pOffset).bind fun _ _ => (hfield .pFilesz).bind fun _ _ =>
      (require_performs _ _).bind fun _ _ => (hfield .pPaddr).bind fun _ _ =>
      (require_performs _ _).bind fun _ _ => (hfield .pMemsz).bind fun _ _ =>
      (require_performs _ _).bind fun _ _ => (require_performs _ _).bind fun _ _ => .pure _
  · have hp : ¬ (file.phdrAt phdr).isLoad = true := fun h => hload (beq_iff_eq.mp h)
    rw [if_pos hload, sizeAfter, if_neg hp]
    exact .congr (.pure size) (if_neg hp).symm

theorem boundSegments_performs (phoff : Nat) (is : List Nat) (size : Nat) :
    Performs n (boundSegments file phoff is size)
      (is.flatMap fun i => phdrLooks file (phoff + phdrSize * i))
      (is.foldl (fun size i => sizeAfter size (file.phdrAt (phoff + phdrSize * i))) size) := by
  induction is generalizing size with
  | nil => exact .pure size
  | cons i is ih =>
      exact (boundSegment_performs file (phoff + phdrSize * i) size).bind fun _ _ => ih _

/-- The program headers that are not loaded do not count. -/
theorem foldl_sizeAfter (ps : List Phdr) (size : Nat) :
    ps.foldl sizeAfter size
      = (ps.filter Phdr.isLoad).foldl (fun size p => max size p.extent) size := by
  rw [List.foldl_filter]
  rfl

/-- **The checks** look at what `looks` lists, and find `bin_size`. -/
theorem checkElf_performs : Performs n (checkElf file) (looks file) (binSize file) := by
  have hsize : file.phdrs.foldl (fun size i => sizeAfter size (file.phdrAt (file.phdrPlace i))) 0
      = binSize file := by
    rw [binSize, RawMem.segments, ← foldl_sizeAfter, List.foldl_map]
  have hbound : Performs n (boundSegments file (file.fieldAt 0 .ePhoff).toNat file.phdrs 0)
      (file.phdrs.flatMap fun i => phdrLooks file (file.phdrPlace i))
      (file.phdrs.foldl (fun size i => sizeAfter size (file.phdrAt (file.phdrPlace i))) 0) :=
    boundSegments_performs file _ file.phdrs 0
  rw [hsize] at hbound
  exact (checkHeader_performs file headerChecks).bind fun _ _ =>
    (file.field_performs 0 .ePhoff).bind fun _ _ => (file.field_performs 0 .ePhnum).bind fun _ _ =>
    hbound.bind fun _ _ => (require_performs _ _).bind fun _ _ => .pure _

end Checks

/-! ## Copying -/

/-- What the checks have left of a program header. -/
structure Checked {n : Nat} (file : RawMem n) (phdr : Nat) : Prop where
  type : phdr + 4 ≤ n
  fields : (file.phdrAt phdr).isLoad = true → phdr + 24 ≤ n
  base : (file.phdrAt phdr).isLoad = true → memoryBase ≤ (file.phdrAt phdr).paddr
  sizes : (file.phdrAt phdr).isLoad = true → (file.phdrAt phdr).filesz ≤ (file.phdrAt phdr).memsz

/-- The bytes of a segment lie in a file of `n` bytes, and in an image of `m`. -/
def Phdr.Fits (n m : Nat) (p : Phdr) : Prop :=
  p.filesz.toNat = 0 ∨ (p.paddr.toNat - memoryBase.toNat + p.filesz.toNat ≤ m ∧
    p.offset.toNat + p.filesz.toNat ≤ n)

/-- The segments of some program headers. -/
def segmentsOf {n : Nat} (file : RawMem n) (phoff : Nat) (is : List Nat) : List Phdr :=
  (is.map fun i => file.phdrAt (phoff + phdrSize * i)).filter Phdr.isLoad

theorem lastWith_cons (f : Phdr → Bool) (p : Phdr) (ps : List Phdr) :
    lastWith f (p :: ps) = (lastWith f ps).or (if f p then some p else none) := by
  rw [lastWith, List.reverse_cons, List.find?_append, List.find?_singleton]
  rfl

section Copies

variable {n m : Nat} (file : RawMem n)

theorem checked_of_looks {phdr : Nat} (hin : Inside n (phdrLooks file phdr))
    (hpass : Passes (phdrLooks file phdr)) : Checked file phdr := by
  unfold phdrLooks at hin hpass
  dsimp only at hin hpass
  refine ⟨hin.1, fun hload => ?_, fun hload => ?_, fun hload => ?_⟩
  all_goals
    rw [if_pos hload] at hin hpass
    simp only [passes_cons, decide_eq_true_eq] at hpass
    obtain ⟨-, -, -, hsource, -, hbase, -, hstop, hsizes, -⟩ := hpass
  · -- `p_memsz` is the last field, and all checks before it have passed
    exact (((((((hin.2 rfl).2 rfl).2 rfl).2 (decide_eq_true hsource)).2 rfl).2
      (decide_eq_true hbase))).1
  · exact hbase
  · exact hsizes

theorem copySegment_eq {phdr : Nat} (h : Checked file phdr) (bin : RawMem m) :
    copySegment file phdr bin = if (file.phdrAt phdr).isLoad then
      bin.memcpy ((file.phdrAt phdr).paddr.toNat - memoryBase.toNat) file
        (file.phdrAt phdr).offset.toNat (file.phdrAt phdr).filesz.toNat
    else .done bin := by
  unfold copySegment
  rw [file.field_inside (f := .pType) h.type, done_bind]
  by_cases hload : file.fieldAt phdr .pType = ptLoad
  · have hp : (file.phdrAt phdr).isLoad = true := beq_iff_eq.mpr hload
    have hfields := h.fields hp
    have hread (f : ElfField) (hf : f.offset + f.size ≤ 24) :
        file.field phdr f = .done (file.fieldAt phdr f) := file.field_inside (by omega)
    rw [if_neg (not_not.mpr hload), if_pos hp, hread .pPaddr (by decide), done_bind,
      hread .pOffset (by decide), done_bind, hread .pFilesz (by decide), done_bind]
    rfl
  · have hp : ¬ (file.phdrAt phdr).isLoad = true := fun h => hload (beq_iff_eq.mp h)
    rw [if_pos hload, if_neg hp]
    rfl

theorem memcpy_fits {dest src len : Nat} (bin : RawMem m)
    (h : len = 0 ∨ (dest + len ≤ m ∧ src + len ≤ n)) : ∃ bin' : RawMem m,
      bin.memcpy dest file src len = .done bin' ∧
      ∀ k, bin'.byte k = if dest ≤ k ∧ k < dest + len then file.byte (src + (k - dest))
        else bin.byte k := by
  unfold RawMem.memcpy
  by_cases hlen : len = 0
  · rw [if_pos hlen]
    exact ⟨bin, rfl, fun k => (if_neg (by omega)).symm⟩
  · obtain ⟨hdest, hsrc⟩ := h.resolve_left hlen
    rw [if_neg hlen, if_pos ⟨hdest, hsrc⟩]
    refine ⟨_, rfl, fun k => ?_⟩
    by_cases hk : k < m
    · rw [bin.byte_lt hk]
      exact RawMem.byte_lt _ hk
    · rw [bin.byte_end hk, if_neg (by omega)]
      exact RawMem.byte_end _ hk

/-- **The second loop**, over any of the program headers: where all segments fit the last one
counts. -/
theorem copySegments_done (phoff : Nat) (is : List Nat)
    (h : ∀ i ∈ is, Checked file (phoff + phdrSize * i))
    (hfits : ∀ p ∈ segmentsOf file phoff is, p.Fits n m) (bin : RawMem m) :
    ∃ bin', copySegments file phoff is bin = .done bin' ∧
      ∀ a, memoryBase.toNat ≤ a → bin'.byte (a - memoryBase.toNat) =
        match lastWith (·.inFile a) (segmentsOf file phoff is) with
        | some p => file.segmentByte p a
        | none => bin.byte (a - memoryBase.toNat) := by
  induction is generalizing bin with
  | nil => exact ⟨bin, rfl, fun _ _ => rfl⟩
  | cons i is ih =>
      have hhead := h i (List.mem_cons_self ..)
      have htail := fun j hj => h j (List.mem_cons_of_mem _ hj)
      rw [copySegments, copySegment_eq file hhead]
      by_cases hload : (file.phdrAt (phoff + phdrSize * i)).isLoad = true
      · have hsegs : segmentsOf file phoff (i :: is)
            = file.phdrAt (phoff + phdrSize * i) :: segmentsOf file phoff is :=
          List.filter_cons_of_pos hload
        have hbase := hhead.base hload
        rw [hsegs] at hfits ⊢
        generalize file.phdrAt (phoff + phdrSize * i) = p at hload hbase hfits
        obtain ⟨bin₁, hcopy, hbytes⟩ :=
          memcpy_fits file bin (hfits p (List.mem_cons_self ..))
        obtain ⟨bin', hrest, hlast⟩ := ih htail
          (fun q hq => hfits q (List.mem_cons_of_mem _ hq)) bin₁
        refine ⟨bin', ?_, fun a ha => ?_⟩
        · rw [if_pos hload, hcopy]
          exact hrest
        · rw [hlast a ha, lastWith_cons]
          cases lastWith (·.inFile a) (segmentsOf file phoff is) with
          | some q => rfl
          | none =>
              rw [BitVec.le_def] at hbase
              rw [Option.none_or]
              dsimp only
              rw [hbytes]
              by_cases hin : p.inFile a = true
              · have hbounds := hin
                unfold Phdr.inFile at hbounds
                rw [Bool.and_eq_true, decide_eq_true_eq, decide_eq_true_eq] at hbounds
                have hsub : a - memoryBase.toNat - (p.paddr.toNat - memoryBase.toNat)
                    = a - p.paddr.toNat := by omega
                rw [if_pos (by omega), if_pos hin, hsub]
                rfl
              · have hbounds := hin
                unfold Phdr.inFile at hbounds
                rw [Bool.and_eq_true, decide_eq_true_eq, decide_eq_true_eq] at hbounds
                rw [if_neg (by omega), if_neg hin]
      · have hsegs : segmentsOf file phoff (i :: is) = segmentsOf file phoff is :=
          List.filter_cons_of_neg hload
        rw [if_neg hload, hsegs]
        rw [hsegs] at hfits
        exact ih htail hfits bin

/-- One segment that does not fit is enough. -/
theorem copySegments_outside (phoff : Nat) (is : List Nat)
    (h : ∀ i ∈ is, Checked file (phoff + phdrSize * i))
    (hfits : ¬ ∀ p ∈ segmentsOf file phoff is, p.Fits n m) (bin : RawMem m) :
    copySegments file phoff is bin = .outside := by
  induction is generalizing bin with
  | nil => exact absurd (fun p hp => by cases hp) hfits
  | cons i is ih =>
      have hhead := h i (List.mem_cons_self ..)
      have htail := fun j hj => h j (List.mem_cons_of_mem _ hj)
      rw [copySegments, copySegment_eq file hhead]
      by_cases hload : (file.phdrAt (phoff + phdrSize * i)).isLoad = true
      · have hsegs : segmentsOf file phoff (i :: is)
            = file.phdrAt (phoff + phdrSize * i) :: segmentsOf file phoff is :=
          List.filter_cons_of_pos hload
        rw [hsegs, List.forall_mem_cons] at hfits
        rw [if_pos hload]
        by_cases hp : (file.phdrAt (phoff + phdrSize * i)).Fits n m
        · obtain ⟨bin₁, hcopy, -⟩ := memcpy_fits file bin hp
          rw [hcopy]
          exact ih htail (fun hrest => hfits ⟨hp, hrest⟩) bin₁
        · have hout : bin.memcpy _ file _ _ = .outside :=
            (if_neg fun hzero => hp (.inl hzero)).trans (if_neg fun hin => hp (.inr hin))
          rw [hout]
          rfl
      · have hsegs : segmentsOf file phoff (i :: is) = segmentsOf file phoff is :=
          List.filter_cons_of_neg hload
        rw [if_neg hload]
        rw [hsegs] at hfits
        exact ih htail hfits bin

end Copies

/-! ## The image -/

theorem le_foldl_max {ps : List Phdr} {x size : Nat} :
    x ≤ ps.foldl (fun size p => max size p.extent) size ↔
      x ≤ size ∨ ∃ p ∈ ps, x ≤ p.extent := by
  induction ps generalizing size with
  | nil => simp
  | cons p ps ih => rw [List.foldl_cons, ih, le_max_iff, List.exists_mem_cons_iff, or_assoc]

/-- A property of fewer addresses has the same last segment, if that one has it. -/
theorem lastWith_narrow {f g : Phdr → Bool} {ps : List Phdr} {p : Phdr}
    (hfg : ∀ q ∈ ps, f q = true → g q = true) (hp : lastWith g ps = some p) (hf : f p = true) :
    lastWith f ps = some p := by
  obtain ⟨-, later, earlier, hsplit, hnone⟩ := List.find?_eq_some_iff_append.mp hp
  refine List.find?_eq_some_iff_append.mpr ⟨hf, later, earlier, hsplit, fun q hq => ?_⟩
  have hmem : q ∈ ps := by
    rw [← List.mem_reverse, hsplit]
    exact List.mem_append_left _ hq
  have hg := hnone q hq
  cases hfq : f q with
  | false => rfl
  | true => simp [hfg q hmem hfq] at hg

section Image

variable {n : Nat} {file : RawMem n}

/-- The part in the file is a part of the segment. -/
theorem covers_of_inFile {p : Phdr} {a : Nat} (hsizes : p.filesz ≤ p.memsz)
    (h : p.inFile a = true) : p.covers a = true := by
  rw [BitVec.le_def] at hsizes
  unfold Phdr.inFile at h
  unfold Phdr.covers
  rw [Bool.and_eq_true, decide_eq_true_eq, decide_eq_true_eq] at h ⊢
  omega

/-- **What the copies show** is what the program headers say, unless zeros of a segment are to
hide bytes of the file. -/
theorem shows_iff (hsizes : ∀ p ∈ file.segments, p.filesz ≤ p.memsz) (a : Nat) :
    (match lastWith (·.inFile a) file.segments with
      | some p => file.segmentByte p a
      | none => 0) = elfByte file a ↔
    ∀ p q, lastWith (·.covers a) file.segments = some p → p.inFile a = false →
      lastWith (·.inFile a) file.segments = some q → file.segmentByte q a = 0 := by
  have hcovers : ∀ q ∈ file.segments, q.inFile a = true → q.covers a = true :=
    fun q hq => covers_of_inFile (hsizes q hq)
  unfold elfByte
  cases hlast : lastWith (·.covers a) file.segments with
  | none =>
      have hnone : lastWith (·.inFile a) file.segments = none := by
        refine List.find?_eq_none.mpr fun q hq hin => ?_
        exact List.find?_eq_none.mp hlast q hq (hcovers q (List.mem_reverse.mp hq) hin)
      rw [hnone]
      simp
  | some p =>
      by_cases hin : p.inFile a = true
      · rw [lastWith_narrow hcovers hlast hin]
        simp [hin]
      · rw [Bool.not_eq_true] at hin
        cases lastWith (·.inFile a) file.segments <;> simp [hin]

theorem memory_size_pos : 0 < memorySize := by decide

/-- The image is smaller than the memory. -/
theorem binSize_lt_iff (h : binSize file ≤ memorySize) :
    binSize file < memorySize ↔ ∀ p ∈ file.segments, p.extent ≠ memorySize := by
  have hlarge : memorySize ≤ binSize file ↔ ∃ p ∈ file.segments, memorySize ≤ p.extent := by
    have hpos := memory_size_pos
    rw [binSize, le_foldl_max, or_iff_right (by omega)]
  constructor
  · intro hlt p hp heq
    have := hlarge.mpr ⟨p, hp, heq.ge⟩
    omega
  · intro hall
    by_contra hnot
    obtain ⟨p, hp, hle⟩ := hlarge.mp (by omega)
    have hextent : p.extent ≤ binSize file := le_foldl_max.mpr (.inr ⟨p, hp, Nat.le_refl _⟩)
    exact hall p hp (by omega)

/-- Where every segment fits. -/
theorem fits_iff : (∀ p ∈ file.segments, p.Fits n (binSize file)) ↔
    (∀ p ∈ file.segments, p.filesz ≠ 0 → p.offset.toNat + p.filesz.toNat ≤ n) ∧
    ∀ p ∈ file.segments, p.filesz ≠ 0 →
      ∃ q ∈ file.segments, p.paddr.toNat - memoryBase.toNat + p.filesz.toNat ≤ q.extent := by
  have hzero (p : Phdr) : p.filesz = 0 ↔ p.filesz.toNat = 0 := by
    rw [← BitVec.toNat_inj]
    rfl
  have hdest (p : Phdr) (hp : p.filesz ≠ 0) :
      p.paddr.toNat - memoryBase.toNat + p.filesz.toNat ≤ binSize file ↔
        ∃ q ∈ file.segments,
          p.paddr.toNat - memoryBase.toNat + p.filesz.toNat ≤ q.extent := by
    rw [ne_eq, hzero] at hp
    rw [binSize, le_foldl_max, or_iff_right (by omega)]
  constructor
  · intro h
    refine ⟨fun p hmem hp => ?_, fun p hmem hp => (hdest p hp).mp ?_⟩
    · exact ((h p hmem).resolve_left fun h0 => hp ((hzero p).mpr h0)).2
    · exact ((h p hmem).resolve_left fun h0 => hp ((hzero p).mpr h0)).1
  · rintro ⟨hsource, hall⟩ p hmem
    by_cases hp : p.filesz = 0
    · exact .inl ((hzero p).mp hp)
    · exact .inr ⟨(hdest p hp).mpr (hall p hmem hp), hsource p hmem hp⟩

end Image

/-! ## Loading the image -/

namespace SlaveBus

/-- Either model's bus stores a byte in the same way. -/
theorem isaWrite8_eq (b : SlaveBus) (addr : Word) (value : BitVec 8) :
    b.isaWrite8 addr value = b.write8Sys addr value := by
  unfold isaWrite8 write8Sys writeSys
  cases hfind : b.find addr false with
  | none => rfl
  | some f =>
      obtain ⟨i, d⟩ := f
      have hcheck := check_one (find_cover hfind).2
      dsimp only
      unfold Device.writeSys
      rw [if_pos hcheck, if_pos hcheck, Option.map_map]
      rfl

theorem isaWrites_eq (im : Image) (is : List Nat) (b : SlaveBus) :
    b.isaWrites im is = b.sysWrites (is.map fun i =>
      .write8 (memoryBase + BitVec.ofNat 32 i) (im.bytes.byte i)) := by
  induction is generalizing b with
  | nil => rfl
  | cons i is ih =>
      rw [isaWrites, isaWrite8_eq, List.map_cons, sysWrites]
      congr 1
      funext b
      exact ih b

theorem isaLoad_eq (b : SlaveBus) (im : Image) : b.isaLoad im = b.load im := by
  unfold isaLoad load
  rw [isaWrites_eq]

/-- **An image is taken** when it is smaller than the memory. -/
theorem load_isSome {b : SlaveBus} (hsep : BusRange.Separate b.ranges) (im : Image) :
    (b.load im).isSome ↔ im.size < memorySize := by
  unfold load
  split
  · rename_i hlt
    obtain ⟨b', hrun, -⟩ := sysWrites_bytes ((List.range im.size).map fun i =>
      .write8 (memoryBase + BitVec.ofNat 32 i) (im.bytes.byte i)) b hsep
    rw [hrun]
    exact iff_of_true rfl hlt
  · rename_i hnot
    exact iff_of_false (fun h => by cases h) hnot

end SlaveBus

theorem clearedBus_separate : BusRange.Separate clearedBus.ranges :=
  List.pairwise_singleton _ _

theorem isaBus_separate : BusRange.Separate isaBus.ranges := by
  have hmap : BusRange.mapAll [] [memoryRange, clintRange] = some isaBus.ranges := rfl
  exact BusRange.separate_mapAll List.Pairwise.nil hmap

/-- What the checks leave, once they have all passed. -/
structure Scanned {n : Nat} (file : RawMem n) : Prop where
  loads : loadElf file = copySegments file (file.fieldAt 0 .ePhoff).toNat file.phdrs
    (RawMem.zero (binSize file)) >>= fun bin => .done ⟨binSize file, bin⟩
  checked : ∀ i ∈ file.phdrs, Checked file (file.phdrPlace i)
  sizes : ∀ p ∈ file.segments, p.filesz ≤ p.memsz
  size : binSize file ≤ memorySize

theorem scanned_of_looks {n : Nat} {file : RawMem n} (hin : Inside n (looks file))
    (hpass : Passes (looks file)) : Scanned file := by
  have hchecks := (checkElf_performs file).done hin hpass
  have hparts := hpass
  unfold looks at hin hparts
  rw [passes_append, passes_append, passes_append, passes_append] at hparts
  obtain ⟨hheader, hphoff, hphnum, htable, hsize⟩ := hparts
  have hafter := (inside_append.mp hin).2 hheader
  have hafter' := (inside_append.mp hafter).2 hphoff
  have htable' := (inside_append.mp ((inside_append.mp hafter').2 hphnum)).1
  have hchecked : ∀ i ∈ file.phdrs, Checked file (file.phdrPlace i) := fun i hi =>
    have heach := each_of_flatMap htable' htable i hi
    checked_of_looks file heach.1 heach.2
  refine ⟨?_, hchecked, fun p hp => ?_, of_decide_eq_true (passes_cons.mp hsize).1⟩
  · rw [loadElf, hchecks, done_bind, file.field_inside (f := .ePhoff) hafter.1, done_bind,
      file.field_inside (f := .ePhnum) hafter'.1]
    rfl
  · obtain ⟨hmem, hload⟩ := List.mem_filter.mp hp
    obtain ⟨i, hi, rfl⟩ := List.mem_map.mp hmem
    exact (hchecked i hi).sizes hload

/-- **ELF loading.** For every file the loader touches nothing outside the file and the image, and
returns an image that shows the segments and that both models take, exactly when the headers it
looks at lie in the file, the bytes of no segment lie behind the file's end or end behind every
segment's 32-bit end, no segment's zeros should hide bytes of one before it, and no segment ends
with the memory. -/
theorem loadElf_right_iff {n : Nat} (file : RawMem n) : LoadsRight file ↔ Loadable file := by
  have hchecks := checkElf_performs file
  by_cases hin : Inside n (looks file)
  swap
  · have hout : loadElf file = .outside := by
      rw [loadElf, hchecks.outside hin]
      rfl
    exact iff_of_false (fun h => h.inside hout) fun h => hin h.headers
  by_cases hpass : Passes (looks file)
  swap
  · obtain ⟨e, he⟩ := hchecks.rejected hin hpass
    have hrej : loadElf file = .rejected e := by
      rw [loadElf, he]
      rfl
    refine iff_of_true ⟨?_, ?_, ?_⟩ ⟨hin, ?_, ?_, ?_, ?_⟩
    · rw [hrej]
      exact fun h => by cases h
    · rw [hrej]
      exact fun im h => by cases h
    · rw [hrej]
      exact fun im h => by cases h
    all_goals exact fun h => absurd h hpass
  have hscan := scanned_of_looks hin hpass
  by_cases hfits : ∀ p ∈ file.segments, p.Fits n (binSize file)
  · obtain ⟨bin, hcopy, hbytes⟩ := copySegments_done file (file.fieldAt 0 .ePhoff).toNat
      file.phdrs hscan.checked hfits (RawMem.zero (binSize file))
    have hdone : loadElf file = .done ⟨binSize file, bin⟩ := by
      rw [hscan.loads, hcopy]
      rfl
    have hzero (k : Nat) : (RawMem.zero (binSize file)).byte k = 0 := by
      by_cases hk : k < binSize file
      · exact RawMem.byte_lt _ hk
      · exact RawMem.byte_end _ hk
    have hshows (a : Nat) (ha : InMemory a) : bin.byte (a - memoryBase.toNat) = elfByte file a ↔
        ∀ p q, lastWith (·.covers a) file.segments = some p → p.inFile a = false →
          lastWith (·.inFile a) file.segments = some q → file.segmentByte q a = 0 := by
      rw [hbytes a ha.1, hzero]
      exact shows_iff hscan.sizes a
    have htaken : (clearedBus.load ⟨binSize file, bin⟩).isSome ∧
        (isaBus.isaLoad ⟨binSize file, bin⟩).isSome ↔
          ∀ p ∈ file.segments, p.extent ≠ memorySize := by
      rw [SlaveBus.isaLoad_eq, SlaveBus.load_isSome clearedBus_separate,
        SlaveBus.load_isSome isaBus_separate, and_self]
      exact binSize_lt_iff hscan.size
    obtain ⟨hsource, hdest⟩ := fits_iff.mp hfits
    constructor
    · intro h
      exact ⟨hin, fun _ => hsource, fun _ => hdest,
        fun _ a ha => (hshows a ha).mp (h.shows _ hdone a ha),
        fun _ => htaken.mp (h.taken _ hdone)⟩
    · intro h
      refine ⟨?_, fun im him a ha => ?_, fun im him => ?_⟩
      · rw [hdone]
        exact fun h => by cases h
      all_goals
        rw [hdone] at him
        cases him
      · exact (hshows a ha).mpr (h.zeros hpass a ha)
      · exact htaken.mpr (h.room hpass)
  · have hout : loadElf file = .outside := by
      rw [hscan.loads, copySegments_outside file _ _ hscan.checked hfits]
      rfl
    exact iff_of_false (fun h => h.inside hout)
      fun h => hfits (fits_iff.mpr ⟨h.source hpass, h.dest hpass⟩)

/-! ## Files that are not checked enough -/

/-- A file of these bytes. -/
def RawMem.ofList (bytes : List (BitVec 8)) : RawMem bytes.length := fun i => bytes.get i

/-- A word of a file. -/
def wordBytes (v : Word) : List (BitVec 8) :=
  (List.range 4).map fun i => v.extractLsb' (8 * i) 8

/-- The bytes of an ELF file with two program headers and nothing else. -/
def twoHeaders (p q : Phdr) : List (BitVec 8) :=
  let phdr (p : Phdr) := [p.type, p.offset, 0, p.paddr, p.filesz, p.memsz, 0, 0].flatMap wordBytes
  [0x7F, 0x45, 0x4C, 0x46, 1, 1, 1, 0] ++ List.replicate 8 0 ++ [2, 0, 243, 0]
    ++ [1, initPc, 52, 52, 0].flatMap wordBytes ++ [52, 0, 32, 0, 2, 0, 40, 0, 1, 0, 0, 0]
    ++ phdr p ++ phdr q

/-- The file. -/
def twoSegments (p q : Phdr) : RawMem (twoHeaders p q).length := .ofList (twoHeaders p q)

/-- A segment that is not loaded. -/
def noSegment : Phdr := ⟨0, 0, 0, 0, 0⟩

/-- An image is returned that passes a test. -/
def returns (test : Image → Bool) : Outcome ElfError Image → Bool
  | .done im => test im
  | _ => false

theorem exists_of_returns (test : Image → Bool) (x : Outcome ElfError Image)
    (h : returns test x = true) : ∃ im, x = .done im ∧ test im = true := by
  cases x with
  | done im => exact ⟨im, rfl, h⟩
  | outside => cases h
  | rejected e => cases h

/-- The run leaves the file or the image. -/
def leaves : Outcome ElfError Image → Bool
  | .outside => true
  | _ => false

theorem outside_of_leaves {x : Outcome ElfError Image} (h : leaves x = true) : x = .outside := by
  cases x with
  | outside => rfl
  | done im => cases h
  | rejected e => cases h

/-- **A file that ends behind its magic number**; a segment whose 32-bit end is its start; zeros
over bytes of the file; and a segment as large as the memory. -/
theorem loadElf_wrong : ¬ LoadsRight (RawMem.ofList [0x7F, 0x45, 0x4C, 0x46]) ∧
    ¬ LoadsRight (twoSegments ⟨1, 0, 0x90000000, 4, 0xF0000000⟩ noSegment) ∧
    ¬ LoadsRight (twoSegments ⟨1, 0, 0x80000000, 4, 4⟩ ⟨1, 0, 0x80000000, 0, 4⟩) ∧
    ¬ LoadsRight (twoSegments ⟨1, 0, 0x80000000, 0, 0x100000⟩ noSegment) := by
  refine ⟨fun h => h.inside ?_, fun h => h.inside ?_, fun h => ?_, fun h => ?_⟩
  · exact outside_of_leaves (by decide +kernel)
  · exact outside_of_leaves (by decide +kernel)
  · obtain ⟨im, hdone, hbyte⟩ := exists_of_returns (fun im => im.bytes.byte 0 == 0x7F)
      (loadElf (twoSegments ⟨1, 0, 0x80000000, 4, 4⟩ ⟨1, 0, 0x80000000, 0, 4⟩)) (by decide +kernel)
    have hshows := h.shows im hdone memoryBase.toNat ⟨Nat.le_refl _, by decide⟩
    have hzero : elfByte (twoSegments ⟨1, 0, 0x80000000, 4, 4⟩ ⟨1, 0, 0x80000000, 0, 4⟩)
        memoryBase.toNat = 0 := by decide +kernel
    rw [hzero, Nat.sub_self] at hshows
    rw [hshows] at hbyte
    exact absurd hbyte (by decide)
  · obtain ⟨im, hdone, hsize⟩ := exists_of_returns (fun im => im.size == memorySize)
      (loadElf (twoSegments ⟨1, 0, 0x80000000, 0, 0x100000⟩ noSegment)) (by decide +kernel)
    have hload := (SlaveBus.load_isSome clearedBus_separate im).mp (h.taken im hdone).1
    rw [beq_iff_eq] at hsize
    omega

end DreamCore
