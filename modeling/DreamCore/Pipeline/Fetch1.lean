import DreamCore.Component.AddressMap
import DreamCore.Component.BranchPredictor

/-!
# The first level of fetch

`fetch1::run`. It reads the group of words the bus has for its `pc`, looks at each
just far enough to tell whether it is a jump, asks the predictors, and asks the bus
for the group after it. A jump it cannot predict, which is `mret`, makes it wait.

`none` is a `verify` that fails.
-/

namespace DreamCore

/-- `fetch1_fetch2_op_info_t`. Only the enabled ones of a pack are listed. -/
structure FetchOpInfo extends Fetch2DecodePack where
  /-- `inst_common_info.id`. -/
  instId : Nat

/-- The registers of `fetch1`. -/
structure Fetch1 where
  pc : Word
  jumpWait : Bool
  nextInstId : Nat

/-- The registers after reset. -/
def Fetch1.reset : Fetch1 := ⟨initPc, false, 0⟩

/-! ## One word -/

/-- The test for a jump: the opcodes of `jal`, `jalr` and the branches, or exactly `mret`. -/
def fetchJump (opcode : Word) : Bool :=
  opcodeOf opcode == 0x6f || opcodeOf opcode == 0x67 || opcodeOf opcode == 0x63
    || opcode == 0x30200073

/-- The test for `fence.i`. -/
def fetchFenceI (opcode : Word) : Bool := opcodeOf opcode == 0x0f && funct3Of opcode == 0x01

/-- `rd_is_link` and `rs1_is_link`. -/
def isLink (reg : Nat) : Bool := reg == 1 || reg == 5

/-- What the switch over the opcode makes of a word. -/
structure Predicted where
  pack : BranchPredictorInfoPack := {}
  predictors : BranchPredictorSet
  /-- The word is a jump without a prediction. -/
  wait : Bool := false

/-- The case of `jalr`. A link register in either place means a call or a return. -/
def predictJalr (cur new : BranchPredictorSet) (i : Nat) (curPc opcode : Word) : Predicted :=
  let rdIsLink := isLink (rdOf opcode)
  let rs1IsLink := isLink (rs1Of opcode)
  let push (p : BranchPredictorSet) : BranchPredictorSet :=
    { p with mainRas := cur.mainRas.pushAddr p.mainRas (curPc + 4) }
  let btb : BranchPredictorInfoPack :=
    { predicted := true, jump := true, nextPc := new.l0Btb.predictNextPc i
      unconditionIndirectJump := true }
  let (addr, ras) := cur.mainRas.popAddr new.mainRas
  let popped : BranchPredictorInfoPack := { predicted := true, jump := true, nextPc := addr }
  if rdIsLink then
    if rs1IsLink then
      if rs1Of opcode = rdOf opcode then { pack := btb, predictors := push new }
      else { pack := popped, predictors := push { new with mainRas := ras } }
    else { pack := btb, predictors := push new }
  else if rs1IsLink then { pack := popped, predictors := { new with mainRas := ras } }
  else { pack := btb, predictors := new }

/-- The case of the branches. A `funct3` no branch has fails a `verify_only`. -/
def predictBranch (new : BranchPredictorSet) (i : Nat) (opcode : Word) : Option Predicted :=
  if funct3Of opcode = 0x2 ∨ funct3Of opcode = 0x3 then none
  else
    some {
      pack := {
        predicted := true
        jump := new.biModal.predictJump i
        nextPc := new.biModal.predictNextPc i
        conditionJump := true
        biModeGlobalHistory := new.biMode.globalHistory }
      predictors := new }

/-- The `switch(opcode & 0x7f)`. -/
def predictSwitch (cur new : BranchPredictorSet) (i : Nat) (curPc opcode : Word) :
    Option Predicted :=
  match opcodeOf opcode with
  | 0x6f =>
      some {
        pack := { predicted := true, jump := true, nextPc := curPc + (immJ opcode).signExtend 32 }
        predictors :=
          if isLink (rdOf opcode) then
            { new with mainRas := cur.mainRas.pushAddr new.mainRas (curPc + 4) }
          else new }
  | 0x67 => some (predictJalr cur new i curPc opcode)
  | 0x63 => predictBranch new i opcode
  | _ => some { predictors := new, wait := fetchJump opcode }

/-! ## One group -/

/-- The variables of the loop. -/
structure FetchState where
  fetch1 : Fetch1
  sendPack : List FetchOpInfo := []
  predictors : BranchPredictorSet

/-- What is kept of word `i`. -/
def fetchInfo (instId : Nat) (curPc opcode : Word) (pack : BranchPredictorInfoPack) :
    FetchOpInfo where
  enable := true
  pc := curPc
  value := opcode
  hasException := !checkAlign curPc 4
  exceptionId :=
    if !checkAlign curPc 4 then .instructionAddressMisaligned else .instructionAccessFault
  exceptionValue := curPc
  branchPredictorInfoPack := pack
  instId := instId

/-- The word as the loop looks at it. -/
def fetchOpcode (curPc word : Word) : Word := if checkAlign curPc 4 then word else 0

/-- The body of the loop, for a word that is not held back. -/
def fetchWord (cur : BranchPredictorSet) (i : Nat) (curPc opcode : Word) (st : FetchState) :
    Option (FetchState × Bool) :=
  (predictSwitch cur (st.predictors.predict i curPc opcode) i curPc opcode).map fun p =>
    let jump := fetchJump opcode
    let away := jump && p.pack.predicted && p.pack.jump && p.pack.nextPc != curPc + 4
    ({ fetch1 := {
        pc := if away then p.pack.nextPc else curPc + 4
        jumpWait := p.wait || st.fetch1.jumpWait
        nextInstId := st.fetch1.nextInstId + 1 }
       sendPack := st.sendPack ++ [fetchInfo st.fetch1.nextInstId curPc opcode p.pack]
       predictors := p.predictors },
      !(fetchFenceI opcode || away || (jump && !p.pack.predicted)))

/-- The body of the loop. `idle` says that every stage and both store buffers are empty: a
`fence.i` is fetched alone, and not before. -/
def fetchOne (cur : BranchPredictorSet) (idle : Bool) (oldPc : Word) (i : Nat) (word : Word)
    (st : FetchState) : Option (FetchState × Bool) :=
  let curPc := oldPc + BitVec.ofNat 32 (i * 4)
  let opcode := fetchOpcode curPc word
  if fetchFenceI opcode && (i != 0 || !idle) then some (st, false)
  else fetchWord cur i curPc opcode st

/-- The loop, from word `i` on. -/
def fetchLoop (cur : BranchPredictorSet) (idle : Bool) (oldPc : Word) :
    Nat → List Word → FetchState → Option FetchState
  | _, [], st => some st
  | i, word :: words, st =>
      (fetchOne cur idle oldPc i word st).bind fun r =>
        if r.2 then fetchLoop cur idle oldPc (i + 1) words r.1 else some r.1

/-! ## One cycle -/

/-- What `fetch1::run` is given. -/
structure Fetch1Input where
  /-- `fetch2_feedback_pack`, but for its `idle`. -/
  stall : Bool := false
  pcRedirect : Bool := false
  newPc : Word := 0
  /-- `idle` of fetch2, decode, rename and commit, and the two store buffers empty. -/
  idle : Bool := false
  bru : FlushFeedback := {}
  sau : FlushFeedback := {}
  commit : CommitFeedback := {}
  /-- `bus->get_instruction_value`. -/
  instructionValue : Option (Fin fetchWidth → Word) := none

/-- What `fetch1::run` leaves. The bus is asked for the group at the `pc`. -/
structure Fetch1Result where
  fetch1 : Fetch1
  predictors : BranchPredictorSet
  /-- What the port to fetch2 is set to, if it is set. -/
  port : Option (List FetchOpInfo)
  requests : List SyncRequest := []

/-- `//branch history update` -/
def historyUpdates (pack : List FetchOpInfo) : List SyncRequest :=
  (pack.filter fun q => q.branchPredictorInfoPack.predicted
    && q.branchPredictorInfoPack.conditionJump).map fun q =>
    .speculativeUpdate q.branchPredictorInfoPack.jump

/-- A flush: the port is emptied and fetch goes on at `pc`. -/
def Fetch1.redirect (f : Fetch1) (predictors : BranchPredictorSet) (pc : Word) : Fetch1Result where
  fetch1 := { f with pc := pc, jumpWait := false }
  predictors := predictors
  port := some []

/-- The loop, or what a wait for a jump does instead. -/
def Fetch1.advance (f : Fetch1) (predictors : BranchPredictorSet) (inp : Fetch1Input) :
    Option FetchState :=
  if f.jumpWait then
    if inp.commit.jumpEnable then
      some {
        fetch1 := { f with
          jumpWait := false
          pc := if inp.commit.jump then inp.commit.jumpNextPc else f.pc }
        predictors := predictors }
    else some { fetch1 := f, predictors := predictors }
  else
    match inp.stall, inp.instructionValue with
    | false, some words =>
        fetchLoop predictors inp.idle f.pc 0 (List.ofFn words)
          { fetch1 := f, predictors := predictors }
    | _, _ => some { fetch1 := f, predictors := predictors }

/-- `fetch1::run`. -/
def Fetch1.run (f : Fetch1) (predictors : BranchPredictorSet) (inp : Fetch1Input) :
    Option Fetch1Result :=
  if inp.commit.flush then
    if inp.commit.hasException then some (f.redirect predictors inp.commit.exceptionPc)
    else if inp.commit.jumpEnable then
      if inp.commit.jump then some (f.redirect predictors inp.commit.jumpNextPc) else none
    else some (f.redirect predictors f.pc)
  else if inp.bru.flush then some (f.redirect predictors inp.bru.nextPc)
  else if inp.sau.flush then some (f.redirect predictors inp.sau.nextPc)
  else if inp.pcRedirect then some (f.redirect predictors inp.newPc)
  else
    (f.advance predictors inp).map fun st =>
      { fetch1 := st.fetch1
        predictors := st.predictors
        port := if inp.stall then none else some st.sendPack
        requests := if inp.stall then [] else historyUpdates st.sendPack }

end DreamCore
