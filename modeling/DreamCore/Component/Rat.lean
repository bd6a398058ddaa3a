import DreamCore.Config
import DreamCore.Lib.Ring

/-!
# The register alias table and the physical register file

`rat.h` keeps, for every *physical* register, the architectural register it was
last mapped to and a valid bit. An architectural register is looked up by
scanning for the one valid physical register that names it; the scan checks that
there is at most one.

A checkpoint copies the valid bits only. It relies on the map itself never being
overwritten for a register that a rewind could make valid again.
-/

namespace DreamCore

open Ring

/-- `rat` of `rat.h`, one snapshot of its registers. -/
structure RatTable where
  phyMapTable : Nat → Nat
  phyMapTableValid : Nat → Bool

namespace RatTable

/-- Whether physical register `phyId` is currently the home of `archId`. -/
def maps (t : RatTable) (archId phyId : Nat) : Bool :=
  t.phyMapTableValid phyId && t.phyMapTable phyId == archId

/-- `producer_get_phy_id`: `none` is the failing `verify`, `some none` the `false` it
returns when nothing is mapped. -/
def producerGetPhyId (new : RatTable) (archId : Nat) : Option (Option Nat) := do
  guard (0 < archId ∧ archId < archRegNum)
  match (List.range phyRegNum).filter (new.maps archId) with
  | [] => return none
  | [i] => return some i
  | _ => none

/-- `customer_get_phy_id`: the same scan, of the snapshot the cycle began with. -/
def customerGetPhyId (cur : RatTable) (archId : Nat) : Option (Option Nat) :=
  cur.producerGetPhyId archId

/-- `set_map`. The `initRat` flag is `init_rat`, true only while the model is reset. -/
def setMap (new : RatTable) (initRat : Bool) (archId phyId : Nat) : Option RatTable := do
  guard (phyId < phyRegNum)
  guard (0 < archId ∧ archId < archRegNum)
  guard (!new.phyMapTableValid phyId)
  let old ← new.producerGetPhyId archId
  guard (initRat || old.isSome)
  let valid := Function.update new.phyMapTableValid phyId true
  return {
    phyMapTable := Function.update new.phyMapTable phyId archId
    phyMapTableValid := match old with
      | some oldPhyId => Function.update valid oldPhyId false
      | none => valid }

/-- `restore_from_checkpoint`. -/
def restoreFromCheckpoint (new : RatTable) (valid : Nat → Bool) : RatTable :=
  { new with phyMapTableValid := valid }

/-- The physical registers a table maps valid. -/
def validRegs (t : RatTable) : List Nat := (List.range phyRegNum).filter t.phyMapTableValid

variable {t t' : RatTable} {archId phyId : Nat}

theorem maps_iff : t.maps archId phyId = true ↔
    t.phyMapTableValid phyId = true ∧ t.phyMapTable phyId = archId := by
  simp [maps]

/-- **A lookup that finds a register finds the only one.** -/
theorem producerGetPhyId_eq_some (h : t.producerGetPhyId archId = some (some phyId)) :
    (0 < archId ∧ archId < archRegNum) ∧ phyId < phyRegNum ∧ t.maps archId phyId = true
      ∧ ∀ q, q < phyRegNum → t.maps archId q = true → q = phyId := by
  simp only [producerGetPhyId, Option.bind_eq_bind, Option.bind_eq_some_iff] at h
  obtain ⟨_, hg, h⟩ := h
  have ha : 0 < archId ∧ archId < archRegNum := by simpa [guard] using hg
  split at h
  · cases h
  · rename_i i hi
    cases h
    have hmem : ∀ q, q ∈ (List.range phyRegNum).filter (t.maps archId) ↔ q = phyId := by
      intro q; rw [hi]; simp
    have h1 := (hmem phyId).mpr rfl
    rw [List.mem_filter, List.mem_range] at h1
    refine ⟨ha, h1.1, h1.2, fun q hq hm => (hmem q).mp ?_⟩
    rw [List.mem_filter, List.mem_range]
    exact ⟨hq, hm⟩
  · cases h

/-- **What a mapping that did not abort did.** -/
theorem setMap_eq_some (h : t.setMap false archId phyId = some t') :
    ∃ old, t.producerGetPhyId archId = some (some old) ∧ phyId < phyRegNum
      ∧ t.phyMapTableValid phyId = false
      ∧ t'.phyMapTable = Function.update t.phyMapTable phyId archId
      ∧ t'.phyMapTableValid
          = Function.update (Function.update t.phyMapTableValid phyId true) old false := by
  simp only [setMap, Option.bind_eq_bind, Option.bind_eq_some_iff] at h
  obtain ⟨_, hp, _, -, _, hv, o, ho, _, hs, h⟩ := h
  have hp' : phyId < phyRegNum := by simpa [guard] using hp
  have hv' : t.phyMapTableValid phyId = false := by simpa [guard] using hv
  cases o with
  | none => simp [guard] at hs
  | some old =>
      cases h
      exact ⟨old, ho, hp', hv', rfl, rfl⟩

end RatTable

/-- One entry of `regfile.h`. -/
structure PhyReg where
  data : Word
  dataValid : Bool
  robId : Ptr
  oldest : Bool

/-- `regfile<uint32_t>`, one snapshot of its registers. -/
abbrev Regfile := Nat → PhyReg

namespace Regfile

/-- `write`. -/
def write (new : Regfile) (addr : Nat) (value : Word) (valid : Bool) (robId : Ptr)
    (oldest : Bool) : Regfile :=
  Function.update new addr ⟨value, valid, robId, oldest⟩

/-- `write_age_information`. -/
def writeAgeInformation (new : Regfile) (addr : Nat) (robId : Ptr) (oldest : Bool) : Regfile :=
  Function.update new addr { new addr with robId := robId, oldest := oldest }

/-- `restore(rat *)`. -/
def restoreRat (new : Regfile) (element : RatTable) : Regfile :=
  fun i => { new i with dataValid := element.phyMapTableValid i }

/-- `restore(rob_id, rob_id_stage)`: what a younger instruction wrote is no longer valid. -/
def restoreAge (cur new : Regfile) (p : Ptr) : Regfile :=
  fun i =>
    if (cur i).dataValid && !(cur i).oldest && (cur i).robId.younger p then
      { new i with dataValid := false, oldest := true }
    else new i

/-- `restore_equal(rob_id, rob_id_stage)`. -/
def restoreEqual (cur new : Regfile) (p : Ptr) : Regfile :=
  fun i =>
    if (cur i).dataValid && !(cur i).oldest && ((cur i).robId.younger p || (cur i).robId == p) then
      { new i with dataValid := false, oldest := true }
    else new i

end Regfile

end DreamCore
