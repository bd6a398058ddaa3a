import DreamCore.Pipeline.Decode

/-!
# The branch predictors

`bi_modal`, `bi_mode`, `l0_btb` and the return address stack. The first and the
third answer in the cycle they are asked in; `bi_mode` keeps its answers in `dff`s,
so that the second level of fetch reads them a cycle later.

What trains them is queued during a cycle and applied at its end. `l1_btb` is
trained as well, but the only code that would read it is commented out.
-/

namespace DreamCore

/-- A two-bit saturating counter. The bound the source verifies is its type. -/
abbrev Counter := Fin 4

namespace Counter

/-- Count up or down, unless the end is reached. -/
def train (c : Counter) (jump : Bool) : Counter :=
  if jump then if c < 3 then c + 1 else c
  else if 0 < c then c - 1 else c

/-- The upper half predicts a jump. -/
def taken (c : Counter) : Bool := decide (2 ≤ c)

end Counter

/-- The taken target of a conditional branch. -/
def branchTarget (pc inst : Word) : Word := pc + (immB inst).signExtend 32

/-! ## `bi_modal` -/

/-- `bi_modal`. -/
structure BiModal where
  predictNextPc : Nat → Word := fun _ => 0
  predictJump : Nat → Bool := fun _ => false
  pht : Nat → Counter := fun _ => 0

namespace BiModal

/-- `(pc >> 2) & BI_MODAL_ADDR_MASK`. -/
def index (pc : Word) : Nat := (pc >>> 2 &&& 0xf).toNat

def predict (p : BiModal) (port : Nat) (pc inst : Word) : BiModal :=
  let jump := (p.pht (index pc)).taken
  { p with
    predictJump := Function.update p.predictJump port jump
    predictNextPc := Function.update p.predictNextPc port
      (if jump then branchTarget pc inst else pc + 4) }

def update (p : BiModal) (pc : Word) (jump : Bool) (pack : BranchPredictorInfoPack) : BiModal :=
  if pack.conditionJump then
    { p with pht := Function.update p.pht (index pc) ((p.pht (index pc)).train jump) }
  else p

end BiModal

/-! ## `bi_mode` -/

/-- `bi_mode`. The two predictions of a port are registered. -/
structure BiMode where
  predictNextPc : Nat → Word := fun _ => 0
  predictJump : Nat → Bool := fun _ => false
  globalHistory : Word := 0
  globalHistoryRetired : Word := 0
  phtLeft : Nat → Counter := fun _ => 0
  phtRight : Nat → Counter := fun _ => 0
  phtChoice : Nat → Counter := fun _ => 0

namespace BiMode

/-- `history ^ ((pc >> 2) & BI_MODE_BRANCH_PC_MASK)`. -/
def phtAddr (history pc : Word) : Nat := (history ^^^ (pc >>> 2 &&& 0xffff)).toNat

/-- `(pc >> 2) & BI_MODE_PHT_CHOICE_ADDR_MASK`. -/
def phtChoiceAddr (pc : Word) : Nat := (pc >>> 2 &&& 0x3f).toNat

/-- The shift of a history register. -/
def shift (history : Word) (jump : Bool) : Word :=
  history <<< 1 &&& 0xffff ||| (if jump then 1 else 0)

def predict (p : BiMode) (port : Nat) (pc inst : Word) : BiMode :=
  let addr := phtAddr p.globalHistory pc
  let jump :=
    if p.phtChoice (phtChoiceAddr pc) ≤ 1 then (p.phtLeft addr).taken else (p.phtRight addr).taken
  { p with
    predictJump := Function.update p.predictJump port jump
    predictNextPc := Function.update p.predictNextPc port
      (if jump then branchTarget pc inst else pc + 4) }

/-- `_update`. -/
def train (p : BiMode) (history pc : Word) (jump hit : Bool) : BiMode :=
  let addr := phtAddr history pc
  let choiceAddr := phtChoiceAddr pc
  let choice := p.phtChoice choiceAddr
  let p :=
    if choice ≤ 1 then
      { p with phtLeft := Function.update p.phtLeft addr ((p.phtLeft addr).train jump) }
    else { p with phtRight := Function.update p.phtRight addr ((p.phtRight addr).train jump) }
  if !(choice.taken != jump && hit) then
    { p with phtChoice := Function.update p.phtChoice choiceAddr (choice.train jump) }
  else p

def update (p : BiMode) (pc : Word) (jump hit : Bool) (pack : BranchPredictorInfoPack) : BiMode :=
  if pack.conditionJump then
    let p := p.train pack.biModeGlobalHistory pc jump hit
    let p :=
      if !hit && !pack.checkpointIdValid then { p with globalHistory := p.globalHistoryRetired }
      else p
    { p with globalHistoryRetired := shift p.globalHistoryRetired jump }
  else p

def speculativeUpdate (p : BiMode) (jump : Bool) : BiMode :=
  { p with globalHistory := shift p.globalHistory jump }

def bruSpeculativeUpdate (p : BiMode) (jump hit : Bool) (pack : BranchPredictorInfoPack) :
    BiMode :=
  if pack.conditionJump && !hit then
    { p with globalHistory := shift pack.biModeGlobalHistory jump }
  else p

def restore (p : BiMode) (pack : BranchPredictorInfoPack) : BiMode :=
  { p with globalHistory := pack.biModeGlobalHistory }

end BiMode

/-! ## `l0_btb` -/

/-- `l0_btb`. Nothing ever trains it. -/
structure L0Btb where
  predictNextPc : Nat → Word := fun _ => 0
  tag : Nat → Word := fun _ => 0
  targetAddr : Nat → Word := fun _ => 0
  valid : Nat → Bool := fun _ => false

namespace L0Btb

/-- `(pc >> 2) & L0_BTB_ADDR_MASK`. -/
def index (pc : Word) : Nat := (pc >>> 2 &&& 0xf).toNat

def predict (p : L0Btb) (port : Nat) (pc : Word) : L0Btb :=
  let hit := p.valid (index pc) && p.tag (index pc) == pc >>> 6
  { p with
    predictNextPc := Function.update p.predictNextPc port
      (if hit then p.targetAddr (index pc) <<< 2 else pc + 4) }

end L0Btb

/-! ## The return address stack -/

/-- `ras_item_t`. -/
structure RasItem where
  addr : Word := 0
  cnt : Word := 0

def rasSize : Nat := 256

/-- `ras`, one snapshot of its registers. -/
structure Ras where
  buffer : Nat → RasItem := fun _ => {}
  topPtr : Nat := 0
  lastAddr : Word := 0

namespace Ras

/-- `throw_push`. The oldest address is lost. -/
def throwPush (cur new : Ras) (item : RasItem) : Ras :=
  { new with
    buffer := Function.update
      (fun i => if i + 2 < cur.topPtr then cur.buffer (i + 1) else new.buffer i)
      (cur.topPtr - 1) item }

def pushAddr (cur new : Ras) (addr : Word) : Ras :=
  let top := cur.buffer (cur.topPtr - 1)
  if cur.topPtr ≠ 0 ∧ top.addr = addr ∧ top.cnt < 0xffffffff then
    { new with
      buffer := Function.update new.buffer (cur.topPtr - 1) { top with cnt := top.cnt + 1 } }
  else if cur.topPtr = rasSize then throwPush cur new ⟨addr, 1⟩
  else
    { new with
      buffer := Function.update new.buffer cur.topPtr ⟨addr, 1⟩
      topPtr := cur.topPtr + 1 }

/-- `pop_addr`: the address, and the stack. -/
def popAddr (cur new : Ras) : Word × Ras :=
  if cur.topPtr = 0 then (cur.lastAddr, new)
  else
    let top := cur.buffer (cur.topPtr - 1)
    if top.cnt = 1 then
      (top.addr, { new with lastAddr := top.addr, topPtr := cur.topPtr - 1 })
    else
      (top.addr, { new with
        buffer := Function.update new.buffer (cur.topPtr - 1) { top with cnt := top.cnt - 1 } })

end Ras

/-! ## The set -/

/-- What waits for the end of the cycle, for the predictors that look at it. -/
inductive SyncRequest where
  /-- `bi_modal.update_sync`. -/
  | biModalUpdate (pc : Word) (jump : Bool) (pack : BranchPredictorInfoPack)
  /-- `bi_mode.update_sync`. -/
  | biModeUpdate (pc : Word) (jump hit : Bool) (pack : BranchPredictorInfoPack)
  /-- `bi_mode.bru_speculative_update_sync`. -/
  | bruSpeculativeUpdate (jump hit : Bool) (pack : BranchPredictorInfoPack)
  /-- `batch_speculative_update_sync`. -/
  | speculativeUpdate (jump : Bool)
  /-- `batch_restore_sync`. -/
  | restore (pack : BranchPredictorInfoPack)

/-- `branch_predictor_set`. -/
structure BranchPredictorSet where
  l0Btb : L0Btb := {}
  biModal : BiModal := {}
  biMode : BiMode := {}
  mainRas : Ras := {}

namespace BranchPredictorSet

def reset : BranchPredictorSet := {}

/-- `batch_predict`. -/
def predict (p : BranchPredictorSet) (port : Nat) (pc inst : Word) : BranchPredictorSet :=
  { p with
    l0Btb := p.l0Btb.predict port pc
    biModal := p.biModal.predict port pc inst
    biMode := p.biMode.predict port pc inst }

/-- One request, applied at the end of the cycle. -/
def apply (p : BranchPredictorSet) : SyncRequest → BranchPredictorSet
  | .biModalUpdate pc jump pack => { p with biModal := p.biModal.update pc jump pack }
  | .biModeUpdate pc jump hit pack => { p with biMode := p.biMode.update pc jump hit pack }
  | .bruSpeculativeUpdate jump hit pack =>
      { p with biMode := p.biMode.bruSpeculativeUpdate jump hit pack }
  | .speculativeUpdate jump => { p with biMode := p.biMode.speculativeUpdate jump }
  | .restore pack => { p with biMode := p.biMode.restore pack }

/-- `batch_sync`. -/
def sync (p : BranchPredictorSet) (requests : List SyncRequest) : BranchPredictorSet :=
  requests.foldl apply p

/-- What the requests leave alone: the answers given in this cycle. -/
structure SameAnswers (p q : BranchPredictorSet) : Prop where
  jump : q.biMode.predictJump = p.biMode.predictJump
  nextPc : q.biMode.predictNextPc = p.biMode.predictNextPc

theorem apply_answers (p : BranchPredictorSet) (request : SyncRequest) :
    p.SameAnswers (p.apply request) := by
  cases request with
  | biModalUpdate pc jump pack => exact ⟨rfl, rfl⟩
  | biModeUpdate pc jump hit pack =>
    simp only [apply, BiMode.update, BiMode.train]
    constructor <;> split <;> (try split) <;> (try split) <;> (try split) <;> rfl
  | bruSpeculativeUpdate jump hit pack =>
    simp only [apply, BiMode.bruSpeculativeUpdate]
    constructor <;> split <;> rfl
  | speculativeUpdate jump => exact ⟨rfl, rfl⟩
  | restore pack => exact ⟨rfl, rfl⟩

/-- **The end of the cycle leaves the answers alone.** -/
theorem sync_answers (p : BranchPredictorSet) (requests : List SyncRequest) :
    p.SameAnswers (p.sync requests) := by
  induction requests generalizing p with
  | nil => exact ⟨rfl, rfl⟩
  | cons request requests ih =>
    obtain ⟨hj, hn⟩ := ih (p.apply request)
    obtain ⟨hj', hn'⟩ := p.apply_answers request
    exact ⟨hj.trans hj', hn.trans hn'⟩

end BranchPredictorSet

end DreamCore
