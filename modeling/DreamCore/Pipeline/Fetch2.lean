import DreamCore.Pipeline.Fetch1

/-!
# The second level of fetch

`fetch2::run`. A pack that comes from the first level is looked at once more: where
`bi_mode` disagrees about a conditional branch the record of the branch is changed,
what was fetched behind it is dropped, and the first level is sent elsewhere. What
the fifo to decode does not take is held.
-/

namespace DreamCore

/-- The registers of `fetch2`. -/
structure Fetch2 where
  busy : Bool
  revPack : List FetchOpInfo

/-- The registers after reset. -/
def Fetch2.reset : Fetch2 := ⟨false, []⟩

/-- `fetch2_feedback_pack_t`. -/
structure Fetch2Feedback where
  idle : Bool := true
  stall : Bool
  pcRedirect : Bool := false
  newPc : Word := 0

/-- A pack after the level-2 branch prediction. -/
structure Level2 where
  pack : List FetchOpInfo := []
  /-- Where fetch is sent, if anywhere. -/
  newPc : Option Word := none
  requests : List SyncRequest := []

/-- The two predictors disagree about the branch on port `i`. -/
def level2Differs (biMode : BiMode) (i : Nat) (q : FetchOpInfo) : Bool :=
  let pack := q.branchPredictorInfoPack
  pack.predicted && !pack.unconditionIndirectJump && pack.conditionJump
    && (biMode.predictJump i != pack.jump || biMode.predictNextPc i != pack.nextPc)

/-- The record of a branch, changed to what `bi_mode` says about port `i`. -/
def level2Change (biMode : BiMode) (i : Nat) (q : FetchOpInfo) : FetchOpInfo :=
  { q with branchPredictorInfoPack := { q.branchPredictorInfoPack with
      jump := biMode.predictJump i
      nextPc := biMode.predictNextPc i } }

/-- `//level2 branch prediction` and `//invalid instructions after jump`, from port `i` on. The
predictions read are those registered when the pack was fetched. -/
def level2 (biMode : BiMode) : Nat → List FetchOpInfo → Level2
  | _, [] => {}
  | i, q :: qs =>
      if level2Differs biMode i q then
        { pack := [level2Change biMode i q]
          newPc := some (biMode.predictNextPc i)
          requests := [
            .biModalUpdate q.pc (biMode.predictJump i) q.branchPredictorInfoPack,
            .restore q.branchPredictorInfoPack] }
      else
        let rest := level2 biMode (i + 1) qs
        { rest with pack := q :: rest.pack }

/-- What `fetch2::run` leaves. -/
structure Fetch2Result where
  fetch2 : Fetch2
  feedback : Fetch2Feedback
  /-- What is pushed into the fifo to decode. -/
  pushed : List FetchOpInfo := []
  requests : List SyncRequest := []

/-- The pushes, into a fifo with `room` free cells, and what is held of the pack. -/
def fetch2Push (room : Nat) (pack : List FetchOpInfo) (stall : Bool) (l : Level2) :
    Fetch2Result where
  fetch2 := if pack.length ≤ room then ⟨false, pack⟩ else ⟨true, pack.drop room⟩
  feedback := {
    idle := pack.isEmpty
    stall := stall
    pcRedirect := l.newPc.isSome
    newPc := l.newPc.getD 0 }
  pushed := pack.take room
  requests := l.requests ++ (if l.newPc.isSome then historyUpdates pack else [])

/-- `fetch2::run`. -/
def Fetch2.run (f : Fetch2) (biMode : BiMode) (port : List FetchOpInfo) (room : Nat)
    (flush : Bool) : Fetch2Result :=
  if flush then { fetch2 := { f with busy := false }, feedback := { stall := f.busy } }
  else if f.busy then fetch2Push room f.revPack true {}
  else
    let l := level2 biMode 0 port
    fetch2Push room l.pack false l

end DreamCore
