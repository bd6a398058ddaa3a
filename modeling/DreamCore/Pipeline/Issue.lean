import DreamCore.Pipeline.Dispatch

/-!
# The issue stages: input side

`integer_issue` and `lsu_issue` fill their queue from the dispatch port in the
same way: what does not fit stays in `hold_rev_pack`, aligned to its front, and
is offered again before the port is looked at.

Which entries are selected, confirmed or replayed depends on wakeup and on the
load unit. Here that is an input: any set of entries may be selected, any set of
selected ones confirmed or replayed.
-/

namespace DreamCore

open Ring

/-- One issue stage: the registers of its `ooo_issue_queue`, the `issued` flags, and the
pack held back. -/
structure IssueStage where
  busy : Bool := false
  holdRevPack : List OpInfo := []
  item : Nat → OpInfo := fun _ => {}
  valid : Nat → Bool := fun _ => false
  issued : Nat → Bool := fun _ => false

/-- What the output side and the wakeup logic decide in one cycle. -/
structure IssueChoice where
  /-- Entries selected and sent to register read. -/
  select : Nat → Bool := fun _ => false
  /-- Entries that leave the queue: selected now or earlier, and no longer at risk. -/
  confirm : Nat → Bool := fun _ => false
  /-- Selected entries that have to be selected again. -/
  replay : Nat → Bool := fun _ => false

namespace IssueStage

/-- `run_output` and the confirmation in `run_wakeup`: an entry leaves the queue only when
it has been selected. -/
def output (cur : IssueStage) (choice : IssueChoice) : IssueStage :=
  { cur with
    valid := fun i =>
      cur.valid i && !((cur.issued i || choice.select i) && choice.confirm i)
    issued := fun i =>
      ((cur.issued i && !choice.replay i) || choice.select i) && cur.valid i }

/-- The entries `run_wakeup` drops from the queue under a flush. -/
def squash (cur new : IssueStage) (bru sau : FlushFeedback) : IssueStage :=
  { new with valid := fun i =>
      new.valid i && !(cur.valid i
        && (bru.squashes (cur.item i).robId || sau.squashesEqual (cur.item i).robId)) }

/-- `producer_get_new_id`: the first entry that is free, an entry freed this cycle included. -/
def newId (size : Nat) (new : IssueStage) : Option Nat :=
  (List.range size).find? fun i => !new.valid i

/-- The loop that pushes a pack into the queue. -/
def pushPack (size : Nat) : List OpInfo → IssueStage → IssueStage
  | [], new => new
  | op :: ops, new =>
      if !op.enable then pushPack size ops new
      else match newId size new with
        | some id =>
            pushPack size ops { new with
              item := Function.update new.item id op
              valid := Function.update new.valid id true
              issued := Function.update new.issued id false }
        | none => { new with busy := true, holdRevPack := op :: ops }

/-- `run_input`. Its feedback, `stall`, is the `busy` flag as it finds it. -/
def runInput (size : Nat) (new : IssueStage) (port : List OpInfo) (bru sau : FlushFeedback) :
    IssueStage :=
  let revPack := if new.busy then new.holdRevPack else port
  let revPack := squashPack bru.squashes revPack
  let revPack := squashPack sau.squashesEqual revPack
  pushPack size revPack { new with busy := false, holdRevPack := [] }

/-- The stage after a commit flush. -/
def flush (new : IssueStage) : IssueStage :=
  { new with busy := false, holdRevPack := [], valid := fun _ => false }

/-- One cycle of the stage. -/
def run (size : Nat) (cur : IssueStage) (choice : IssueChoice) (port : List OpInfo)
    (bru sau : FlushFeedback) (commitFlush : Bool) : IssueStage :=
  if commitFlush then cur.flush
  else ((cur.squash (cur.output choice) bru sau).runInput size port bru sau)

end IssueStage

end DreamCore
