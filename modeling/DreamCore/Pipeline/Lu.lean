import DreamCore.Pipeline.Lsu

/-!
# The load unit

`lu::run`, its two levels. The first level computes the address, asks the bus and
collects what younger stores have to say; the second level, a cycle later, waits
for the answer and merges the two. A load that is squashed, or that has to come
again because a store's data was missing, takes its request back.

What happens on the buses is returned as a description: whether the second level
takes its request back, then what the first level asks for.
-/

namespace DreamCore

open Ring

/-- The registers of `lu`. -/
structure LuState where
  l2Stall : Bool := false
  l2LastStall : Bool := false
  l2LastLastStall : Bool := false
  l2RevPack : ReadregExecutePack := {}
  l2Addr : Word := 0
  l2IsCacheable : Bool := false
  l2ConflictFound : Bool := false
  l2FeedbackValue : Word := 0
  l2FeedbackMask : Word := 0

/-- What the load unit is given in one cycle. -/
structure LuInput where
  bru : FlushFeedback := {}
  sau : FlushFeedback := {}
  commitFlush : Bool := false
  /-- What `readreg_lu_hdff` holds. -/
  rev : Option ReadregExecutePack := none
  /-- What `store_buffer::get_feedback_value` says of the load in `rev`. -/
  feedback : Option (Word × Word) := some (0, 0)
  /-- What `retired_store_buffer::get_feedback_value` says of it. -/
  retiredFeedback : Word × Word := (0, 0)

/-- A call of `read8`, `read16` or `read32` on one of the two buses. -/
structure LuRequest where
  cacheable : Bool
  addr : Word
  size : Nat
deriving DecidableEq

/-- What the load unit did in one cycle. -/
structure LuResult where
  next : LuState
  send : ExecuteWbPack
  feedback : LuFeedback
  /-- The second level takes its request back. -/
  revoke : Bool
  request : Option LuRequest

namespace LuInput

/-- A flush of this cycle squashes `rev`. -/
def squashes (inp : LuInput) (rev : ReadregExecutePack) : Bool :=
  inp.commitFlush || inp.bru.squashes rev.robId || inp.sau.squashesEqual rev.robId

end LuInput

/-- The value a load writes back, from what the bus and the stores bring. -/
def luValue (s : LuState) (busValue : Word) : Word :=
  let value := (busValue &&& ~~~s.l2FeedbackMask) ||| s.l2FeedbackValue
  match s.l2RevPack.subOp with
  | .lu .lb => (value.setWidth 8).signExtend 32
  | .lu .lh => (value.setWidth 16).signExtend 32
  | _ => value

/-- A retired store's byte counts where no younger store has one. -/
def combineByte (retired acc : Word × Word) (i : Nat) : Word × Word :=
  let byte : Word := 0xff <<< i
  if retired.2 &&& byte ≠ 0 ∧ acc.2 &&& byte = 0 then
    (acc.1 ||| (retired.1 &&& byte), acc.2 ||| byte)
  else acc

/-- The request of the first level for the load in `rev`: none where it is misaligned. -/
def luRequest (rev : ReadregExecutePack) : Option LuRequest :=
  if rev.enable && !rev.hasException && checkAlign rev.effectiveAddr (luSize rev) then
    some ⟨isCacheable rev.effectiveAddr, rev.effectiveAddr, luSize rev⟩
  else none

/-- The registers after the first level has taken the load in `rev`. -/
def luTake (s : LuState) (inp : LuInput) (rev : ReadregExecutePack) : LuState :=
  let s := { s with l2Addr := 0, l2RevPack := rev }
  if rev.enable && !rev.hasException then
    let aligned := checkAlign rev.effectiveAddr (luSize rev)
    let (conflict, acc) := match inp.feedback with
      | none => (true, (s.l2FeedbackValue, s.l2FeedbackMask))
      | some acc => (false, acc)
    let acc := [0, 8, 16, 24].foldl (combineByte inp.retiredFeedback) acc
    { s with
      l2Addr := rev.effectiveAddr
      l2IsCacheable := isCacheable rev.effectiveAddr
      l2ConflictFound := conflict
      l2FeedbackValue := acc.1
      l2FeedbackMask := acc.2
      l2RevPack := { rev with
        exceptionValue := rev.effectiveAddr
        hasException := !aligned
        exceptionId := if aligned then .loadAccessFault else .loadAddressMisaligned } }
  else s

/-- The load the first level takes: nothing during a flush of commit or a stall. -/
def luAccepted (inp : LuInput) (stall : Bool) : Option ReadregExecutePack :=
  if inp.commitFlush || stall then none
  else inp.rev.filter fun rev =>
    !inp.bru.squashes rev.robId && !inp.sau.squashesEqual rev.robId

/-- The first level. -/
def luLevel1 (s : LuState) (inp : LuInput) : LuState :=
  if !inp.commitFlush && s.l2Stall then s
  else match luAccepted inp s.l2Stall with
    | some rev => luTake s inp rev
    | none => { s with l2Addr := 0, l2RevPack := {} }

/-- The second level has a load that nothing stops from ending. -/
def luAlive (s : LuState) (inp : LuInput) : Bool :=
  s.l2RevPack.enable && !s.l2ConflictFound && !inp.squashes s.l2RevPack

/-- The second level waits for the bus. `value` is what the bus of its load shows. -/
def luStalls (s : LuState) (inp : LuInput) (value : Option Word) : Bool :=
  luAlive s inp && !s.l2RevPack.hasException && value.isNone

/-- What the second level sends on. -/
def luSend (s : LuState) (inp : LuInput) (value : Option Word) : ExecuteWbPack :=
  let send := { ExecuteWbPack.copy s.l2RevPack with storeBufferId := 0 }
  if luAlive s inp then
    if s.l2RevPack.hasException then send
    else match value with
      | some value => { send with rdValue := luValue s value }
      | none => {}
  else {}

/-- `lu::run`. -/
def luRun (s : LuState) (inp : LuInput) (value : Option Word) : LuResult :=
  let alive := luAlive s inp
  let stall := luStalls s inp value
  let again := stall || (alive && !s.l2RevPack.hasException && s.l2LastLastStall)
  let s' := { s with
    l2LastStall := s.l2Stall
    l2LastLastStall := !stall && s.l2Stall
    l2Stall := stall }
  { next := luLevel1 s' inp
    send := luSend s inp value
    feedback := ⟨s.l2ConflictFound || again, again, stall, s.l2RevPack.robId⟩
    revoke := !alive && s.l2RevPack.enable && !s.l2RevPack.hasException
    request := (luAccepted inp stall).bind luRequest }

/-- The first level leaves the flags of the second alone. -/
theorem luLevel1_flags (s : LuState) (inp : LuInput) : (luLevel1 s inp).l2Stall = s.l2Stall ∧
    (luLevel1 s inp).l2LastLastStall = s.l2LastLastStall := by
  unfold luLevel1
  split
  · exact ⟨rfl, rfl⟩
  · split
    · unfold luTake
      dsimp only
      split <;> exact ⟨rfl, rfl⟩
    · exact ⟨rfl, rfl⟩

/-- The second level stalls only on the answer to its own load. -/
theorem luRun_stalls {lu : LuState} {inp : LuInput} {value : Option Word} :
    (luRun lu inp value).next.l2Stall = luStalls lu inp value := (luLevel1_flags _ inp).1

/-- In the second cycle after a stall the second level knows of it. -/
theorem luRun_late {lu : LuState} {inp : LuInput} {value : Option Word} :
    (luRun lu inp value).next.l2LastLastStall = (!luStalls lu inp value && lu.l2Stall) :=
  (luLevel1_flags _ inp).2

end DreamCore
