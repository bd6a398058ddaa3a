import DreamCore.Pipeline.Fetch2

/-!
# The two levels of fetch together

`fetch2` runs before `fetch1` in a cycle and tells it whether to stall or to go
somewhere else; what `fetch1` hands over is looked at in the next cycle. What comes
from the rest of the core, and what the bus delivers, is an input.

A `FrontWorld` also remembers what no stage can see: what has left for decode, which
instruction was fetched behind a redirect, and what was squashed before it left.
-/

namespace DreamCore

/-- The registers of the two stages, the port between them, the predictors. -/
structure Front where
  fetch1 : Fetch1
  /-- `fetch1_fetch2_port`. -/
  port : List FetchOpInfo
  fetch2 : Fetch2
  predictors : BranchPredictorSet

/-- What one cycle brings. -/
structure FrontInput where
  /-- The free cells of `fetch2_decode_fifo`, as the producer counts them. -/
  room : Nat := 0
  /-- `idle` of decode, rename and commit, and the two store buffers empty. -/
  idle : Bool := false
  bru : FlushFeedback := {}
  sau : FlushFeedback := {}
  commit : CommitFeedback := {}
  instructionValue : Option (Fin fetchWidth → Word) := none
  /-- What commit and the branch unit have queued for the predictors. -/
  requests : List SyncRequest := []

/-- Some stage behind fetch flushes it. -/
def FrontInput.flush (inp : FrontInput) : Bool :=
  inp.commit.flush || inp.bru.flush || inp.sau.flush

/-- Where a flush of commit sends fetch: to the handler, or where the jump goes. -/
def CommitFeedback.target (fb : CommitFeedback) : Word :=
  if fb.hasException then fb.exceptionPc else fb.jumpNextPc

/-- A flush of commit names its target. -/
def CommitFeedback.Targeted (fb : CommitFeedback) : Prop :=
  fb.flush = true → fb.hasException = true ∨ (fb.jumpEnable = true ∧ fb.jump = true)

/-- Where a flush sends fetch. Commit comes before the units, and the branch unit before the
store address unit. -/
def FrontInput.target (inp : FrontInput) : Word :=
  if inp.commit.flush then inp.commit.target
  else if inp.bru.flush then inp.bru.nextPc
  else inp.sau.nextPc

/-- What one cycle did. -/
structure FrontResult where
  fetch1 : Fetch1Result
  fetch2 : Fetch2Result
  next : Front

namespace Front

def reset : Front := ⟨.reset, [], .reset, .reset⟩

/-- What `fetch1` is given, behind `fetch2`. -/
def fetch1Input (inp : FrontInput) (fb : Fetch2Feedback) : Fetch1Input where
  stall := fb.stall
  pcRedirect := fb.pcRedirect
  newPc := fb.newPc
  idle := fb.idle && inp.idle
  bru := inp.bru
  sau := inp.sau
  commit := inp.commit
  instructionValue := inp.instructionValue

/-- The part of `cycle_model::run` that runs the two stages. -/
def cycle (s : Front) (inp : FrontInput) : Option FrontResult :=
  let r₂ := s.fetch2.run s.predictors.biMode s.port inp.room inp.flush
  (s.fetch1.run s.predictors (fetch1Input inp r₂.feedback)).map fun r₁ =>
    { fetch1 := r₁
      fetch2 := r₂
      next := {
        fetch1 := r₁.fetch1
        port := r₁.port.getD s.port
        fetch2 := r₂.fetch2
        predictors := r₁.predictors.sync (inp.requests ++ r₂.requests ++ r₁.requests) } }

/-- What is fetched and has not left for decode. -/
def pending (s : Front) : List FetchOpInfo :=
  (if s.fetch2.busy then s.fetch2.revPack else []) ++ s.port

end Front

/-- Where an instruction is predicted to go on: the recorded `next_pc` if it is predicted to
jump, the instruction behind it otherwise. -/
def FetchOpInfo.followPc (q : FetchOpInfo) : Word :=
  if q.branchPredictorInfoPack.predicted && q.branchPredictorInfoPack.jump then
    q.branchPredictorInfoPack.nextPc
  else q.pc + 4

/-- Fetch, and the history of its run. -/
structure FrontWorld where
  front : Front
  /-- A redirect has sent fetch there, and nothing has been fetched since. -/
  turn : Option Word
  /-- The target of the redirect an instruction was fetched behind, if any, by its
`inst_common_info.id`. -/
  turns : Nat → Option Word
  /-- Everything that has left fetch2 for decode, oldest first. -/
  sent : List FetchOpInfo
  /-- The ids of what was fetched and squashed before it left. -/
  squashed : List Nat

namespace FrontWorld

/-- The world after reset. -/
def init : FrontWorld := ⟨.reset, none, fun _ => none, [], []⟩

/-- What is behind a branch the second level has changed its mind about. -/
def dropped (w : FrontWorld) : List FetchOpInfo :=
  if w.front.fetch2.busy then []
  else w.front.port.drop (level2 w.front.predictors.biMode 0 w.front.port).pack.length

/-- Whether fetch has been sent somewhere, and where to, as the stage says that has sent it. A
level-2 redirect is none: the branch it belongs to goes that way. -/
def turnAfter (w : FrontWorld) (inp : FrontInput) (r : FrontResult) : Option Word :=
  if inp.flush then some inp.target
  else if r.fetch2.feedback.pcRedirect then none
  else if w.front.fetch1.jumpWait then
    if inp.commit.jumpEnable && inp.commit.jump then some inp.commit.jumpNextPc else w.turn
  else if (r.fetch1.port.getD []).isEmpty then w.turn
  else none

/-- The first of a group is the one fetched behind the redirect. -/
def turnsAfter (w : FrontWorld) (r : FrontResult) : Nat → Option Word :=
  match r.fetch1.port.getD [] with
  | [] => w.turns
  | q :: _ => Function.update w.turns q.instId w.turn

/-- The world after a cycle with result `r`. -/
def act (w : FrontWorld) (inp : FrontInput) (r : FrontResult) : FrontWorld where
  front := r.next
  turn := w.turnAfter inp r
  turns := w.turnsAfter r
  sent := w.sent ++ r.fetch2.pushed
  squashed := w.squashed
    ++ (if inp.flush then w.front.pending else w.dropped).map FetchOpInfo.instId

end FrontWorld

/-- **The worlds that runs of fetch reach**, whatever the bus and the rest of the core do, as
long as commit says where its flushes go. -/
inductive FrontReachable : FrontWorld → Prop where
  | init : FrontReachable FrontWorld.init
  | cycle {w : FrontWorld} (inp : FrontInput) (r : FrontResult) :
      FrontReachable w → inp.commit.Targeted → w.front.cycle inp = some r →
      FrontReachable (w.act inp r)

end DreamCore
