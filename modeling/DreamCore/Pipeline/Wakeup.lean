import DreamCore.Pipeline.Types

/-!
# Wakeup

An entry of an issue queue waits for its two sources. Each source carries a ready
flag, a countdown to it, and a load-pipeline vector, `lpv`: one bit for every
stage a load still has to pass before the value is certain. Bit 0 is the second
level of the load unit, where a replay is decided.

Both issue queues keep these registers and treat them alike. Here they are one
structure for one source, and each block of `run_wakeup` is a function on it. The
blocks that check something (`verify_only`) may fail.
-/

namespace DreamCore

open Ring

/-- One channel of the feedback of an issue stage. -/
structure WakeupChannel where
  wakeupValid : Bool := false
  wakeupRd : Nat := 0
  wakeupShift : Word := 0
  wakeupLpv : Word := 0
  wakeupRobId : Ptr := ⟨0, false⟩

/-- `execute_feedback_channel_t`, without the value. -/
structure ExecuteFeedbackChannel where
  enable : Bool := false
  phyId : Nat := 0
  robId : Ptr := ⟨0, false⟩

/-- One source operand of a queue entry: `wakeup_shift_src1`, `src1_ready`, `src1_lpv`,
`wakeup_rob_id_src1`, or the same of the second source. -/
structure IssueSource where
  wakeupShift : Word := 0
  ready : Bool := false
  lpv : Word := 0
  wakeupRobId : Ptr := ⟨0, false⟩

/-- `latency_to_wakeup_shift`. -/
def latencyToWakeupShift (latency : Nat) : Word :=
  if latency = 1 then 0 else 1 <<< (latency - 2)

/-- `latency_to_idle_shift`. -/
def latencyToIdleShift (latency : Nat) : Word :=
  if latency = 1 then 0 else 1 <<< (latency - 1)

namespace IssueSource

/-- The value comes from the load that the second level decides about. -/
def atRisk (s : IssueSource) : Bool := s.lpv &&& 1 != 0

/-- `src_ready = false; wakeup_shift_src = 0`. -/
def sleep (s : IssueSource) : IssueSource := { s with ready := false, wakeupShift := 0 }

/-- `//lpv check`. -/
def cancel (lu : LuFeedback) (s : IssueSource) : IssueSource :=
  if lu.replay && s.atRisk && (!lu.replayFollowingOnly || s.wakeupRobId != lu.robId) then s.sleep
  else s

/-- While the load unit stalls, the sources behind the deciding one are asleep. Only
`integer_issue` does this. -/
def stall (lu : LuFeedback) (s : IssueSource) : IssueSource :=
  if lu.stall && s.lpv >>> 1 != 0 then s.sleep else s

/-- `//lpv shift`. -/
def shift (lu : LuFeedback) (s : IssueSource) : IssueSource :=
  if (!lu.replay || !lu.replayFollowingOnly || !s.atRisk) && !lu.stall then
    { s with lpv := s.lpv >>> 1 }
  else s

/-- `//delay wakeup`. -/
def delay (s : IssueSource) : IssueSource :=
  if !s.ready && s.wakeupShift != 0 then
    { s with
      ready := s.wakeupShift == 1
      wakeupShift := s.wakeupShift >>> 1 }
  else s

/-- One channel of `//integer_issue_output feedback` or `//lsu_issue_output feedback`. -/
def wake (argSrc : ArgSrc) (phyId : Nat) (s : IssueSource) (c : WakeupChannel) :
    Option IssueSource :=
  if c.wakeupValid && !s.ready then do
    guard (argSrc = .reg)
    return if phyId = c.wakeupRd then
      { ready := c.wakeupShift == 0
        wakeupShift := if c.wakeupShift = 0 then s.wakeupShift else c.wakeupShift
        lpv := c.wakeupLpv
        wakeupRobId := c.wakeupRobId }
    else s
  else some s

/-- One channel of `//execute feedback`. -/
def executed (argSrc : ArgSrc) (needMap : Bool) (phyId : Nat) (s : IssueSource)
    (c : ExecuteFeedbackChannel) : Option IssueSource :=
  if c.enable && !s.ready then do
    guard (argSrc = .reg)
    guard needMap
    return if phyId = c.phyId then
      { s with
        ready := true
        lpv := 0
        wakeupRobId := c.robId }
    else s
  else some s

/-- The last blocks of `run_wakeup`, from the delayed wakeup on. -/
def awaken (argSrc : ArgSrc) (needMap : Bool) (phyId : Nat) (integer lsu : List WakeupChannel)
    (execute : List ExecuteFeedbackChannel) (s : IssueSource) : Option IssueSource := do
  let s ← (integer ++ lsu).foldlM (wake argSrc phyId) s.delay
  execute.foldlM (executed argSrc needMap phyId) s

end IssueSource

end DreamCore
