import DreamCore.Machine.Image
import DreamCore.Memory.Drain

/-!
# Code that is written

The machine with its memory in the loop: what fetch reads the stores have
written, if they have come that far. A `fence.i` makes sure of it. Fetch takes it
only when nothing else is left anywhere, the retired store buffer included, and
takes nothing along with it; so whatever retires behind it has been read from a
memory in which the stores in front of it are done.

Nothing of this is checked again later: a flush, an interrupt or a store that is
slow to drain must not get between the `fence.i` and what is fetched behind it.
They do not, because as long as it is on its way it is the oldest of all.
-/

namespace DreamCore

open Ring

/-! ## Fetching a `fence.i` -/

/-- The word is one fetch takes for a `fence.i`. -/
def FetchOpInfo.fences (q : FetchOpInfo) : Bool := fetchFenceI q.value

/-- **Decode makes a `fence.i` of nothing else.** -/
theorem decodeSwitch_fenceI {w : Word} {p : DecodeRenamePack} (hop : p.op = .add)
    (h : (decodeSwitch w p).op = .fenceI) : fetchFenceI w = true := by
  have hinv : p.invalid.op ≠ .fenceI := by simp [DecodeRenamePack.invalid, hop]
  unfold decodeSwitch at h
  split at h
  case h_5 | h_6 | h_7 | h_8 | h_9 =>
    simp only [decodeBranch, decodeLoad, decodeStore, decodeOpImm, decodeOpReg] at h
    split at h <;> first | exact absurd h hinv | cases h
  case h_10 hopcode =>
    unfold decodeFence at h
    split at h
    · split at h
      · cases h
      · exact absurd h hinv
    · rename_i hfunct
      rw [fetchFenceI, hopcode, hfunct]
      rfl
    · exact absurd h hinv
  case h_11 =>
    unfold decodeSystem at h
    split at h
    · split at h
      · split at h <;> first | exact absurd h hinv | cases h
      · exact absurd h hinv
    all_goals first | exact absurd h hinv | cases h
  case h_12 => exact absurd h hinv
  all_goals cases h

theorem OpInfo.Sends.fences {info : OpInfo} {q : FetchOpInfo} (h : info.Sends q.decoded)
    (hop : info.op = .fenceI) : q.fences = true := by
  have hdecoded : (decodeSwitch q.value (decodeStart q.toFetch2DecodePack)).op = .fenceI := by
    have heq : q.decoded.op = .fenceI := (congrArg DecodeRenamePack.op h).symm.trans hop
    unfold FetchOpInfo.decoded decode at heq
    dsimp only [DecodeRenamePack.setNeedMap] at heq
    split at heq <;> exact heq
  exact decodeSwitch_fenceI rfl hdecoded

variable {cur : BranchPredictorSet} {idle : Bool} {oldPc : Word}

/-- What one word adds to its group. A `fence.i` is added as the first and ends it. -/
theorem fetchOne_fence {i : Nat} {word : Word} {st st' : FetchState} {go : Bool}
    (h : fetchOne cur idle oldPc i word st = some (st', go)) :
    (st'.sendPack = st.sendPack ∧ go = false) ∨
      ∃ q, st'.sendPack = st.sendPack ++ [q]
        ∧ (q.fences = true → i = 0 ∧ idle = true ∧ go = false) := by
  unfold fetchOne at h
  dsimp only at h
  split at h
  · cases h
    exact .inl ⟨rfl, rfl⟩
  · rename_i hheld
    unfold fetchWord at h
    obtain ⟨p, -, h⟩ := Option.map_eq_some_iff.mp h
    cases h
    refine .inr ⟨_, rfl, fun hf => ?_⟩
    rw [FetchOpInfo.fences, fetchInfo] at hf
    dsimp only at hf
    rw [hf, Bool.true_and, Bool.or_eq_true, not_or, bne_iff_ne, not_not, Bool.not_eq_true,
      Bool.not_eq_false'] at hheld
    exact ⟨hheld.1, hheld.2, by rw [hf]; rfl⟩

/-- Behind the first word no `fence.i` joins a group. -/
theorem fetchLoop_plain {words : List Word} {i : Nat} {st st' : FetchState} (hi : i ≠ 0)
    (h : fetchLoop cur idle oldPc i words st = some st') :
    ∀ q ∈ st'.sendPack, q ∈ st.sendPack ∨ q.fences = false := by
  induction words generalizing i st with
  | nil =>
    cases h
    exact fun q hq => .inl hq
  | cons word words ih =>
    obtain ⟨⟨st₁, go⟩, hone, h⟩ := Option.bind_eq_some_iff.mp h
    have hfirst : ∀ q ∈ st₁.sendPack, q ∈ st.sendPack ∨ q.fences = false := by
      intro q hq
      rcases fetchOne_fence hone with ⟨hsend, -⟩ | ⟨q', hsend, hfence⟩
      · exact .inl (hsend ▸ hq)
      · rw [hsend] at hq
        rcases List.mem_append.mp hq with hq | hq
        · exact .inl hq
        · rw [List.mem_singleton.mp hq]
          exact .inr (Bool.eq_false_iff.mpr fun hf => hi (hfence hf).1)
    cases go with
    | false =>
      cases h
      exact hfirst
    | true =>
      intro q hq
      rcases ih (Nat.succ_ne_zero i) h q hq with hq | hq
      · exact hfirst q hq
      · exact .inr hq

/-- **A `fence.i` is fetched alone, and only when all is idle.** -/
theorem fetchLoop_fence {words : List Word} {st st' : FetchState} (hst : st.sendPack = [])
    (h : fetchLoop cur idle oldPc 0 words st = some st') {q : FetchOpInfo}
    (hq : q ∈ st'.sendPack) (hf : q.fences = true) : st'.sendPack = [q] ∧ idle = true := by
  cases words with
  | nil =>
    cases h
    rw [hst] at hq
    cases hq
  | cons word words =>
    obtain ⟨⟨st₁, go⟩, hone, h⟩ := Option.bind_eq_some_iff.mp h
    rcases fetchOne_fence hone with ⟨hsend, rfl⟩ | ⟨q', hsend, hfence⟩
    · cases h
      rw [hsend, hst] at hq
      cases hq
    · rw [hst, List.nil_append] at hsend
      have hfirst : q = q' := by
        cases go with
        | false =>
          cases h
          rw [hsend] at hq
          exact List.mem_singleton.mp hq
        | true =>
          rcases fetchLoop_plain (Nat.succ_ne_zero 0) h q hq with hq | hq
          · rw [hsend] at hq
            exact List.mem_singleton.mp hq
          · rw [hf] at hq
            cases hq
      subst hfirst
      obtain ⟨-, hidle, rfl⟩ := hfence hf
      cases h
      exact ⟨hsend, hidle⟩

section Front

variable {s : Front} {inp : FrontInput} {r : FrontResult}

/-- **The group of a cycle**: numbered on from the last one, and read for `pc`. -/
theorem group_read (h : s.cycle inp = some r) {code : Word → Word → Prop}
    (hcode : Delivers code s.fetch1.pc inp.instructionValue) :
    s.fetch1.nextInstId ≤ r.next.fetch1.nextInstId ∧ ∀ q ∈ r.fetch1.port.getD [],
      q.Of code ∧ s.fetch1.nextInstId ≤ q.instId ∧ q.instId < r.next.fetch1.nextInstId := by
  cases hf : inp.flush with
  | true =>
    obtain ⟨-, -, -, hport, hnext⟩ := cycle_flush h hf
    rw [hport, hnext]
    exact ⟨Nat.le_refl _, fun q hq => by cases hq⟩
  | false =>
    cases hredirect : r.fetch2.feedback.pcRedirect with
    | true =>
      obtain ⟨-, -, -, -, -, -, -, -, -, hnext, hport, -⟩ := cycle_redirect h hf hredirect
      rw [hport, hnext]
      exact ⟨Nat.le_refl _, fun q hq => by cases hq⟩
    | false =>
      obtain ⟨st, new, hc, -⟩ := cycle_plain h hf hredirect
      have hsame : (s.fetch1.resolve inp.commit).nextInstId = s.fetch1.nextInstId := by
        unfold Fetch1.resolve
        split <;> rfl
      have hnext : r.next.fetch1.nextInstId = s.fetch1.nextInstId + new.length := by
        rw [hc.fetch1, hc.fetched.nextInstId, hsame]
      refine ⟨by omega, fun q hq => ⟨?_, ?_⟩⟩
      · obtain ⟨st', hst, hport⟩ := cycle_group h hf hredirect
        rw [hport] at hq
        split at hq
        · cases hq
        · exact advance_of hcode hst q hq
      · have hid := List.mem_map_of_mem (f := FetchOpInfo.instId) (hc.handed ▸ hq)
        rw [hc.fetched.ids, List.mem_range'_1, hsame] at hid
        omega

/-- **A `fence.i` in the group** is all of it, and nothing was left in fetch. -/
theorem group_fence (h : s.cycle inp = some r) {q : FetchOpInfo}
    (hq : q ∈ r.fetch1.port.getD []) (hfence : q.fences = true) :
    r.fetch1.port.getD [] = [q] ∧ inp.idle = true ∧ s.pending = [] := by
  have hf : inp.flush = false := by
    rw [Bool.eq_false_iff]
    intro hf
    rw [(cycle_flush h hf).2.2.2.1] at hq
    cases hq
  have hredirect : r.fetch2.feedback.pcRedirect = false := by
    rw [Bool.eq_false_iff]
    intro hredirect
    obtain ⟨-, -, -, -, -, -, -, -, -, -, hport, -⟩ := cycle_redirect h hf hredirect
    rw [hport] at hq
    cases hq
  obtain ⟨st, hst, hport⟩ := cycle_group h hf hredirect
  obtain ⟨-, -, -, hpack⟩ := cycle_plain h hf hredirect
  have hfetch2 : r.fetch2 = s.fetch2.run s.predictors.biMode s.port inp.room false := by
    unfold Front.cycle at h
    obtain ⟨r₁, -, h⟩ := Option.map_eq_some_iff.mp h
    cases h
    rw [hf]
  cases hstall : r.fetch2.feedback.stall with
  | true =>
    rw [hport, hstall] at hq
    cases hq
  | false =>
    rw [hport, hstall, if_neg Bool.false_ne_true, Option.getD_some] at hq ⊢
    have hb : s.fetch2.busy = false := by
      cases hb : s.fetch2.busy with
      | false => rfl
      | true =>
        rw [hfetch2, Fetch2.run_busy hb] at hstall
        cases hstall
    -- the loop has run, and has been told that all is idle
    have hloop : st.sendPack = [q] ∧ (r.fetch2.feedback.idle && inp.idle) = true := by
      unfold Fetch1.advance at hst
      split at hst
      · split at hst
        · cases hst
          cases hq
        · cases hst
          cases hq
      · split at hst
        · exact fetchLoop_fence rfl hst hq hfence
        · cases hst
          cases hq
    obtain ⟨hidle₂, hidle⟩ := Bool.and_eq_true_iff.mp hloop.2
    refine ⟨hloop.1, hidle, ?_⟩
    rw [hfetch2, Fetch2.run_free hb, hpack hb] at hidle₂
    rw [Front.pending, hb, List.isEmpty_iff.mp hidle₂]
    rfl

end Front

/-! ## On the way to rename -/

/-- An instruction without what is predicted about it, which the second level may change. -/
def FetchOpInfo.bare (q : FetchOpInfo) : FetchOpInfo := { q with branchPredictorInfoPack := {} }

/-- **A cycle in front of rename**: the front is renamed, a group joins, and what is squashed in
between leaves the rest in order. -/
theorem Machine.upstream_step {m : Machine} {inp : Machine.Input} {r : CycleResult}
    {f : FrontResult} (hn : r.rename.turns.length ≤ m.decodeRename.length)
    (hf : m.fetch.front.cycle (m.frontInput inp r) = some f) :
    ∃ kept, (m.act inp r f).upstream.map FetchOpInfo.bare
        = kept ++ (f.fetch1.port.getD []).map FetchOpInfo.bare
      ∧ kept.Sublist ((m.upstream.drop r.rename.turns.length).map FetchOpInfo.bare) := by
  have hdrop : m.upstream.drop r.rename.turns.length
      = m.decodeRename.drop r.rename.turns.length ++ m.fetch2Decode ++ m.fetch.front.pending := by
    rw [Machine.upstream, List.append_assoc, List.drop_append_of_le_length hn,
      List.append_assoc]
  rw [hdrop]
  cases hflush : (m.frontInput inp r).flush with
  | true =>
    obtain ⟨-, -, -, hport, -⟩ := cycle_flush hf hflush
    rw [Machine.upstream_flushed hf hflush, hport]
    exact ⟨[], rfl, List.nil_sublist _⟩
  | false =>
    rw [Machine.upstream_moved hflush]
    cases hredirect : f.fetch2.feedback.pcRedirect with
    | true =>
      obtain ⟨hb, pre, q, post, hport, -, -, hmoved, -, -, hnone, -⟩ :=
        cycle_redirect hf hflush hredirect
      have hpending : m.fetch.front.pending = pre ++ [q] ++ post := by
        rw [Front.pending, hb, hport, List.append_assoc]
        rfl
      refine ⟨_, (List.append_nil _).symm.trans (by rw [hnone]; rfl), ?_⟩
      rw [hmoved, hpending]
      simp only [List.map_append]
      exact List.Sublist.append_left (List.sublist_append_left ..) _
    | false =>
      obtain ⟨st, new, hc, -⟩ := cycle_plain hf hflush hredirect
      refine ⟨_, ?_, List.Sublist.refl _⟩
      rw [hc.moved, hc.handed, ← List.append_assoc, List.map_append]

/-! ## The machine with its memory in the loop -/

/-- `word` is what the bus hands over for `pc` in a group read from the memory `mem`. -/
def ReadFrom (mem : Mem) (pc word : Word) : Prop :=
  ∃ base words, ∃ i : Fin fetchWidth, busReadInstruction mem base = some words
    ∧ pc = base + BitVec.ofNat 32 (i.val * 4) ∧ word = words i

/-- An instruction that has retired. -/
structure Retirement where
  info : OpInfo
  /-- What fetch has made of its word. -/
  origin : FetchOpInfo
  /-- What the memory held when its word was read. -/
  memory : Mem
  /-- The store, if it is a cacheable one. -/
  store : Option RetiredStoreBufferItem

/-- The machine, the memory it fetches from and stores to, and the history of its run. -/
structure ProgramWorld where
  machine : Machine
  system : MemorySystem
  /-- `instruction_value` of the bus, where `instruction_value_valid` is set. -/
  instructionValue : Option (Fin fetchWidth → Word)
  /-- The cacheable stores that have retired, oldest first. -/
  stored : List RetiredStoreBufferItem
  /-- What the memory held when that group was read. -/
  groupMemory : Mem
  /-- What it held when an instruction was read, by its `inst_common_info.id`. -/
  memoryOf : Nat → Mem
  /-- The instructions in flight, oldest first, and what fetch has made of their words. -/
  traced : List (Flight × FetchOpInfo)
  /-- What has retired, oldest first. -/
  log : List Retirement

/-- The cacheable store a retired entry stands for. -/
def Core.retiredStore (cur : Core) (item : RobItem) : Option RetiredStoreBufferItem :=
  if item.storeBufferIdValid && isCacheable (cur.storeOf item).addr then some (cur.storeOf item)
  else none

namespace ProgramWorld

/-- After reset, with the memory loaded. -/
def init (mem : Mem) (latency : Nat) : ProgramWorld :=
  ⟨.init, .reset mem latency, none, [], mem, fun _ => mem, [], []⟩

/-- The core with its memory, without fetch. -/
def memory (d : ProgramWorld) : MemoryWorld := ⟨d.machine.world, d.system, d.stored⟩

/-- What one cycle brings. -/
structure Input where
  cycle : CycleInput := {}
  use : LoadUse := {}
  requests : List SyncRequest := []

/-- Fetch is given what the bus has registered. -/
def Input.machine (inp : Input) (d : ProgramWorld) : Machine.Input :=
  ⟨inp.cycle, d.instructionValue, inp.requests⟩

def Input.memory (inp : Input) : MemoryWorld.Input := ⟨inp.cycle, inp.use⟩

/-- What a cycle can be asked to do. -/
structure Legal (d : ProgramWorld) (inp : Input) : Prop where
  machine : d.machine.Legal (inp.machine d)
  memory : d.memory.Legal inp.memory

/-- A cycle that comes to `r` in the core and to `f` in fetch. -/
structure Cycle (d : ProgramWorld) (inp : Input) (r : CycleResult) (f : FrontResult) : Prop where
  legal : d.Legal inp
  core : d.machine.world.core.cycle inp.cycle = some r
  fetch : d.machine.fetch.front.cycle (d.machine.frontInput (inp.machine d) r) = some f

/-- What retires in a cycle that comes to `r`. -/
def retirements (d : ProgramWorld) (r : CycleResult) : List Retirement :=
  (d.traced.zip r.commit.retired).map fun (t, e) => {
    info := t.1.info
    origin := t.2
    memory := d.memoryOf t.2.instId
    store := d.machine.world.core.retiredStore e.2 }

/-- What is in flight after such a cycle. -/
def tracedAfter (d : ProgramWorld) (r : CycleResult) : List (Flight × FetchOpInfo) :=
  if r.commit.feedback.flush then []
  else
    ((d.traced.drop r.commit.retired.length).filter fun t =>
      !r.bru.squashes t.1.info.robId && !r.sau.squashesEqual t.1.info.robId)
    ++ (flights (d.machine.world.released ++ releasedIds r.commit.retired).length
        r.rename.turns).zip (d.machine.decodeRename.take r.rename.turns.length)

/-- The world after a cycle. Fetch has asked for the group at its new `pc`, and the memory reads
it before it performs what is due in the cycle. -/
def act (d : ProgramWorld) (inp : Input) (r : CycleResult) (f : FrontResult) : ProgramWorld where
  machine := d.machine.act (inp.machine d) r f
  system := (d.memory.act inp.memory r).system
  instructionValue := busReadInstruction d.system.slave.mem f.next.fetch1.pc
  stored := (d.memory.act inp.memory r).stored
  groupMemory := d.system.slave.mem
  memoryOf := fun id =>
    if id < d.machine.fetch.front.fetch1.nextInstId then d.memoryOf id else d.groupMemory
  traced := d.tracedAfter r
  log := d.log ++ d.retirements r

end ProgramWorld

/-- **The worlds that runs from reset reach**, with a memory of any contents and any latency. -/
inductive ProgramReachable (mem : Mem) (latency : Nat) : ProgramWorld → Prop
  | init : ProgramReachable mem latency (.init mem latency)
  | cycle {d : ProgramWorld} (inp : ProgramWorld.Input) (r : CycleResult) (f : FrontResult) :
      ProgramReachable mem latency d → d.Cycle inp r f →
      ProgramReachable mem latency (d.act inp r f)

variable {mem : Mem} {latency : Nat} {d : ProgramWorld}

/-- The machine sees a run of its own. -/
theorem ProgramReachable.machine (h : ProgramReachable mem latency d) :
    MachineReachable d.machine := by
  induction h with
  | init => exact .init
  | cycle inp r f _ hc ih => exact .cycle _ r f ih hc.legal.machine hc.core hc.fetch

/-- So does the memory. -/
theorem ProgramReachable.memory (h : ProgramReachable mem latency d) :
    MemoryReachable mem latency d.memory := by
  induction h with
  | init => exact .init
  | cycle inp r f _ hc ih => exact .cycle inp.memory r ih hc.legal.memory hc.core

/-! ## What retires -/

/-- The cacheable stores among what has retired, oldest first. -/
def stores (log : List Retirement) : List RetiredStoreBufferItem := log.filterMap (·.store)

theorem stores_append (l l' : List Retirement) : stores (l ++ l') = stores l ++ stores l' :=
  List.filterMap_append

theorem Core.retiredStores_eq (cur : Core) (retired : List (Nat × RobItem)) :
    cur.retiredStores retired = retired.filterMap fun e => cur.retiredStore e.2 := by
  rw [Core.retiredStores, ← List.filterMap_eq_filter, ← List.filterMap_eq_map,
    ← List.filterMap_eq_filter, List.filterMap_filterMap, List.filterMap_filterMap]
  refine List.filterMap_congr fun e _ => ?_
  unfold Core.retiredStore
  cases hs : e.2.storeBufferIdValid <;> simp [Option.guard, hs]

namespace ProgramWorld

variable {inp : Input} {r : CycleResult} {f : FrontResult}

/-- What fetch has made of what is on its way, oldest first, but for the predictions. -/
def inFlight (d : ProgramWorld) : List FetchOpInfo :=
  (d.traced.map Prod.snd ++ d.machine.upstream).map FetchOpInfo.bare

/-- What retires is what has been on its way the longest. -/
theorem retirements_origin (hle : r.commit.retired.length ≤ d.traced.length) :
    (d.retirements r).map (·.origin.bare) = d.inFlight.take r.commit.retired.length := by
  have hlen : r.commit.retired.length ≤ (d.traced.map Prod.snd).length := by
    rwa [List.length_map]
  have hfirst : (d.traced.zip r.commit.retired).map Prod.fst
      = d.traced.take r.commit.retired.length := by
    rw [List.zip_eq_zip_take_min, Nat.min_eq_right hle,
      List.map_fst_zip (by rw [List.length_take, List.length_take]; omega)]
  rw [inFlight, ← List.map_take, List.take_append_of_le_length hlen, ← List.map_take, ← hfirst,
    retirements, List.map_map, List.map_map, List.map_map]
  rfl

/-- The stores that retire are handed over. -/
theorem stores_retirements (hle : r.commit.retired.length ≤ d.traced.length) :
    stores (d.retirements r) = d.machine.world.core.retiredStores r.commit.retired := by
  have hitems := List.map_snd_zip hle
  rw [Core.retiredStores_eq, stores, retirements, List.filterMap_map]
  conv_rhs => rw [← hitems, List.filterMap_map]
  rfl

/-! ## What is on its way -/

/-- What rename takes is in its fifo. -/
theorem Cycle.turns_le (hc : d.Cycle inp r f) :
    r.rename.turns.length ≤ d.machine.decodeRename.length := by
  have hlen := (hc.legal.machine.renamed hc.core).length_eq
  rw [List.length_take] at hlen
  omega

/-- **A cycle of all that is on its way**: the oldest retire, a group joins, and what is squashed
in between leaves the rest in order. -/
theorem Cycle.inFlight_act (hc : d.Cycle inp r f)
    (hle : r.commit.retired.length ≤ d.traced.length) :
    ∃ kept, (d.act inp r f).inFlight = kept ++ (f.fetch1.port.getD []).map FetchOpInfo.bare
      ∧ kept.Sublist (d.inFlight.drop r.commit.retired.length) := by
  have hturns := hc.turns_le
  have hdrop : d.inFlight.drop r.commit.retired.length
      = ((d.traced.drop r.commit.retired.length).map Prod.snd).map FetchOpInfo.bare
        ++ (d.machine.decodeRename.take r.rename.turns.length).map FetchOpInfo.bare
        ++ (d.machine.upstream.drop r.rename.turns.length).map FetchOpInfo.bare := by
    have htake : d.machine.decodeRename.take r.rename.turns.length
        = d.machine.upstream.take r.rename.turns.length := by
      rw [Machine.upstream, List.append_assoc, List.take_append_of_le_length hturns]
    rw [htake, List.append_assoc, ← List.map_append, List.take_append_drop, inFlight,
      ← List.map_drop, List.drop_append_of_le_length (by rwa [List.length_map]), List.map_append,
      ← List.map_drop]
  obtain ⟨kept, hup, hsub⟩ := Machine.upstream_step hturns hc.fetch
  have hact : (d.act inp r f).inFlight = ((d.tracedAfter r).map Prod.snd).map FetchOpInfo.bare
      ++ (d.machine.act (inp.machine d) r f).upstream.map FetchOpInfo.bare := by
    rw [inFlight, List.map_append]
    rfl
  rw [hact, hup, ← List.append_assoc, hdrop]
  refine ⟨_, rfl, List.Sublist.append ?_ hsub⟩
  rw [← List.map_append]
  refine List.Sublist.map _ ?_
  unfold tracedAfter
  split
  · exact List.nil_sublist _
  · rw [List.map_append]
    refine List.Sublist.append (List.filter_sublist.map _) ?_
    rw [List.map_snd_zip (by rw [flights, List.length_map, List.length_take]; omega)]

/-- What is traced is what is in flight. -/
theorem Cycle.traced_act (hc : d.Cycle inp r f)
    (h : d.traced.map Prod.fst = d.machine.world.flight) :
    (d.tracedAfter r).map Prod.fst = (d.machine.world.act r).flight := by
  have hturns := hc.turns_le
  change _ = d.machine.world.flightAfter r _
  unfold tracedAfter World.flightAfter
  split
  · rfl
  · have hlen : (flights (d.machine.world.released ++ releasedIds r.commit.retired).length
        r.rename.turns).length ≤ (d.machine.decodeRename.take r.rename.turns.length).length := by
      rw [flights, List.length_map, List.length_take]
      omega
    rw [List.map_append, List.map_fst_zip hlen, ← h, ← List.map_drop, List.filter_map]
    rfl

/-- What rename sends is what was fetched. -/
theorem Cycle.sends_act (hc : d.Cycle inp r f)
    (h : ∀ t ∈ d.traced, t.1.info.Sends t.2.decoded) :
    ∀ t ∈ d.tracedAfter r, t.1.info.Sends t.2.decoded := by
  intro t ht
  unfold tracedAfter at ht
  split at ht
  · cases ht
  · rcases List.mem_append.mp ht with hold | hnew
    · exact h t (List.mem_of_mem_drop (List.mem_filter.mp hold).1)
    · rw [flights, List.zip_map_left] at hnew
      obtain ⟨⟨turn, q⟩, hmem, rfl⟩ := List.mem_map.mp hnew
      exact (List.forall₂_iff_zip.mp (hc.legal.machine.renamed hc.core)).2 hmem

/-! ## Behind a `fence.i` -/

/-- **What is behind the first `n` stores**: the memory has done them, and had done them when
`retired`, `rest` and the group that comes next were read. -/
structure Behind (mem : Mem) (d : ProgramWorld) (n : Nat) (retired : List Retirement)
    (rest : List FetchOpInfo) : Prop where
  queue : n + d.machine.world.core.retiredStoreBuffer.ring.contents.length ≤ d.stored.length
  group : Drain.Since Mem.store mem d.stored n d.groupMemory
  retired : ∀ e ∈ retired, Drain.Since Mem.store mem d.stored n e.memory
  rest : ∀ q ∈ rest, Drain.Since Mem.store mem d.stored n (d.memoryOf q.instId)

/-- The memory an instruction was read from, once the group has been numbered. -/
theorem memoryOf_act (d : ProgramWorld) (inp : Input) (r : CycleResult) (f : FrontResult)
    (id : Nat) : (d.act inp r f).memoryOf id
      = if id < d.machine.fetch.front.fetch1.nextInstId then d.memoryOf id else d.groupMemory := rfl

/-- **A cycle leaves behind the stores what is behind them**, and what is fetched joins it. -/
theorem Behind.step {n : Nat} {es es' : List Retirement}
    {rest rest' : List FetchOpInfo} (h : d.Behind mem n es rest)
    (hd : ProgramReachable mem latency d) (hc : d.Cycle inp r f)
    (hes : ∀ e ∈ es', e ∈ es ∨ ∃ q ∈ rest, e.memory = d.memoryOf q.instId)
    (hrest : ∀ q ∈ rest', q ∈ rest ∨ d.machine.fetch.front.fetch1.nextInstId ≤ q.instId) :
    (d.act inp r f).Behind mem n es' rest' := by
  obtain ⟨left, hleft, hqueue⟩ := hd.memory.queue_next hc.legal.memory hc.core
  refine ⟨?_, ?_, fun e he => ?_, fun q hq => ?_⟩
  · have hlen := congrArg List.length hqueue
    have hq := h.queue
    change n + List.length (d.memory.act inp.memory r).world.core.retiredStoreBuffer.ring.contents
      ≤ (d.memory.stored ++ _).length
    change List.length d.machine.world.core.retiredStoreBuffer.ring.contents ≥ _ at hleft
    rw [hlen, List.length_append, List.length_append]
    change n + (left.length + _) ≤ d.stored.length + _
    omega
  · exact (hd.memory.since h.queue).append _
  · rcases hes e he with he | ⟨q, hq, hmem⟩
    · exact (h.retired e he).append _
    · rw [hmem]
      exact (h.rest q hq).append _
  · rw [memoryOf_act]
    split
    · rename_i hlt
      rcases hrest q hq with hq | hge
      · exact (h.rest q hq).append _
      · omega
    · exact h.group.append _

/-- Nothing that retires, nothing that is stored. -/
theorem stored_act (hretired : r.commit.retired = []) : (d.act inp r f).stored = d.stored := by
  change d.stored ++ d.machine.world.core.retiredStores r.commit.retired = d.stored
  rw [hretired]
  exact List.append_nil _

/-- **Where nothing is left in the queue**, what is read from now on is behind all stores. -/
theorem Behind.of_drained (hd : ProgramReachable mem latency d)
    (hc : d.Cycle inp r f)
    (hqueue : d.machine.world.core.retiredStoreBuffer.ring.contents = [])
    (hretired : r.commit.retired = []) :
    (d.act inp r f).Behind mem (d.act inp r f).stored.length [] [] := by
  have hall : d.stored.length
      + d.machine.world.core.retiredStoreBuffer.ring.contents.length ≤ d.stored.length := by
    rw [hqueue]
    exact Nat.le_refl _
  obtain ⟨left, hleft, hnext⟩ := hd.memory.queue_next hc.legal.memory hc.core
  have hnil : left = [] := by
    change left.length ≤ d.machine.world.core.retiredStoreBuffer.ring.contents.length at hleft
    rw [hqueue] at hleft
    exact List.length_eq_zero_iff.mp (Nat.le_zero.mp hleft)
  rw [stored_act hretired]
  refine ⟨?_, ?_, by simp, by simp⟩
  · change d.stored.length
      + List.length (d.memory.act inp.memory r).world.core.retiredStoreBuffer.ring.contents ≤ _
    rw [hnext, hnil, hretired, stored_act hretired]
    exact Nat.le_refl _
  · rw [stored_act hretired]
    exact hd.memory.since hall

/-- **The invariant.** Of the instructions on their way only the oldest can be a `fence.i`, and
then the rest is behind all stores there are; once it has retired, what follows is behind the
stores that were in front of it. -/
structure Inv (mem : Mem) (d : ProgramWorld) : Prop where
  traced : d.traced.map Prod.fst = d.machine.world.flight
  sends : ∀ t ∈ d.traced, t.1.info.Sends t.2.decoded
  numbered : ∀ q ∈ d.inFlight, q.instId < d.machine.fetch.front.fetch1.nextInstId
  group : Delivers (ReadFrom d.groupMemory) d.machine.fetch.front.fetch1.pc d.instructionValue
  read : ∀ q ∈ d.inFlight, q.Of (ReadFrom (d.memoryOf q.instId))
  logged : ∀ e ∈ d.log, e.origin.Of (ReadFrom e.memory) ∧ e.info.Sends e.origin.decoded
  stored : d.stored = stores d.log
  foremost : ∀ q ∈ d.inFlight.tail, q.fences = false
  pending : ∀ q rest, d.inFlight = q :: rest → q.fences = true →
    d.Behind mem d.stored.length [] rest
  passed : ∀ older e newer, d.log = older ++ e :: newer → e.origin.fences = true →
    d.Behind mem (stores older).length newer d.inFlight

theorem inFlight_init (mem : Mem) (latency : Nat) : (init mem latency).inFlight = [] := rfl

theorem inv_init (mem : Mem) (latency : Nat) : (init mem latency).Inv mem where
  traced := rfl
  sends := by simp [init]
  numbered := by simp [inFlight_init]
  group := fun words h => by cases h
  read := by simp [inFlight_init]
  logged := by simp [init]
  stored := rfl
  foremost := by simp [inFlight_init]
  pending := by simp [inFlight_init]
  passed := by simp [init]

theorem Inv.retired_le (hi : d.Inv mem)
    (hd : ProgramReachable mem latency d) (hc : d.Cycle inp r f) :
    r.commit.retired.length ≤ d.traced.length := by
  obtain ⟨g, hg⟩ := hd.machine.world.holds
  have hle := retired_length_le hg hc.core
  rw [List.length_take, ← hi.traced, List.length_map] at hle
  omega

/-- What retires has been in flight. -/
theorem mem_retirements {e : Retirement} (he : e ∈ d.retirements r) :
    ∃ t ∈ d.traced, e.info = t.1.info ∧ e.origin = t.2 ∧ e.memory = d.memoryOf t.2.instId := by
  obtain ⟨⟨t, item⟩, hmem, rfl⟩ := List.mem_map.mp he
  exact ⟨t, (List.of_mem_zip hmem).1, rfl, rfl, rfl⟩

theorem mem_inFlight {t : Flight × FetchOpInfo} (ht : t ∈ d.traced) : t.2.bare ∈ d.inFlight :=
  List.mem_map_of_mem (List.mem_append_left _ (List.mem_map_of_mem ht))

/-- **A `fence.i` is fetched when all is done**: nothing else is on its way, nothing retires, and
no store waits for the memory. -/
theorem Inv.fence_alone (hi : d.Inv mem)
    (hd : ProgramReachable mem latency d) (hc : d.Cycle inp r f)
    {q : FetchOpInfo} (hq : q ∈ f.fetch1.port.getD []) (hfence : q.fences = true) :
    f.fetch1.port.getD [] = [q] ∧ d.inFlight = [] ∧ r.commit.retired = []
      ∧ d.machine.world.core.retiredStoreBuffer.ring.contents = [] := by
  obtain ⟨halone, hidle, hpending⟩ := group_fence hc.fetch hq hfence
  obtain ⟨g, hg⟩ := hd.machine.world.holds
  have hidle' : d.machine.idle r = true := hidle
  simp only [Machine.idle, Bool.and_eq_true, List.isEmpty_iff] at hidle'
  obtain ⟨⟨⟨⟨hdecode, hrename⟩, hcommit⟩, -⟩, hempty⟩ := hidle'
  have hflight := cycle_idle hg hc.core hcommit
  have htraced : d.traced = [] := List.map_eq_nil_iff.mp (hi.traced.trans hflight)
  have hretired := hi.retired_le hd hc
  rw [htraced] at hretired
  refine ⟨halone, ?_, List.length_eq_zero_iff.mp (Nat.le_zero.mp hretired),
    hd.memory.queue_empty hc.legal.memory hc.core hempty⟩
  rw [inFlight, htraced, Machine.upstream, hdecode, hrename, hpending]
  rfl

/-- What is on its way has been, or is fetched and numbered now. -/
theorem Inv.mem_inFlight_act (hi : d.Inv mem) (hd : ProgramReachable mem latency d)
    (hc : d.Cycle inp r f) {q : FetchOpInfo} (hq : q ∈ (d.act inp r f).inFlight) :
    q ∈ d.inFlight.drop r.commit.retired.length ∨ (q.Of (ReadFrom d.groupMemory)
      ∧ d.machine.fetch.front.fetch1.nextInstId ≤ q.instId
      ∧ q.instId < f.next.fetch1.nextInstId) := by
  obtain ⟨kept, hact, hsub⟩ := hc.inFlight_act (hi.retired_le hd hc)
  rw [hact] at hq
  rcases List.mem_append.mp hq with hq | hq
  · exact .inl (hsub.subset hq)
  · obtain ⟨q₀, hq₀, rfl⟩ := List.mem_map.mp hq
    obtain ⟨hof, hid⟩ := (group_read hc.fetch hi.group).2 q₀ hq₀
    exact .inr ⟨⟨hof.hasException, hof.value⟩, hid⟩

theorem Inv.numbered_act (hi : d.Inv mem) (hd : ProgramReachable mem latency d)
    (hc : d.Cycle inp r f) :
    ∀ q ∈ (d.act inp r f).inFlight, q.instId < f.next.fetch1.nextInstId := by
  intro q hq
  have hle := (group_read hc.fetch hi.group).1
  rcases hi.mem_inFlight_act hd hc hq with hold | ⟨-, -, hlt⟩
  · have hlt := hi.numbered q (List.mem_of_mem_drop hold)
    omega
  · exact hlt

theorem Inv.read_act (hi : d.Inv mem) (hd : ProgramReachable mem latency d)
    (hc : d.Cycle inp r f) :
    ∀ q ∈ (d.act inp r f).inFlight, q.Of (ReadFrom ((d.act inp r f).memoryOf q.instId)) := by
  intro q hq
  rw [memoryOf_act]
  rcases hi.mem_inFlight_act hd hc hq with hold | ⟨hof, hle, -⟩
  · have hold' := List.mem_of_mem_drop hold
    rw [if_pos (hi.numbered q hold')]
    exact hi.read q hold'
  · rw [if_neg (by omega)]
    exact hof

theorem Inv.logged_act (hi : d.Inv mem) : ∀ e ∈ (d.act inp r f).log,
    e.origin.Of (ReadFrom e.memory) ∧ e.info.Sends e.origin.decoded := by
  intro e he
  rcases List.mem_append.mp he with he | he
  · exact hi.logged e he
  · obtain ⟨t, ht, hinfo, horigin, hmem⟩ := mem_retirements he
    have hof := hi.read _ (mem_inFlight ht)
    rw [hinfo, horigin, hmem]
    exact ⟨⟨hof.hasException, hof.value⟩, hi.sends t ht⟩

/-- A `fence.i` is never behind another instruction. -/
theorem Inv.foremost_act (hi : d.Inv mem) (hd : ProgramReachable mem latency d)
    (hc : d.Cycle inp r f) : ∀ q ∈ (d.act inp r f).inFlight.tail, q.fences = false := by
  intro q hq
  obtain ⟨kept, hact, hsub⟩ := hc.inFlight_act (hi.retired_le hd hc)
  rw [Bool.eq_false_iff]
  intro hfence
  by_cases hnew : ∃ q₀ ∈ f.fetch1.port.getD [], q₀.fences = true
  · -- it is all there is
    obtain ⟨q₀, hq₀, hfence₀⟩ := hnew
    obtain ⟨halone, hempty, -, -⟩ := hi.fence_alone hd hc hq₀ hfence₀
    rw [hempty, List.drop_nil] at hsub
    rw [hact, List.sublist_nil.mp hsub, halone] at hq
    cases hq
  · have hkept : q ∈ kept.tail := by
      rw [hact] at hq
      cases kept with
      | nil =>
        obtain ⟨q₀, hq₀, rfl⟩ := List.mem_map.mp (List.mem_of_mem_tail hq)
        exact absurd ⟨q₀, hq₀, hfence⟩ hnew
      | cons a kept =>
        rcases List.mem_append.mp hq with hq | hq
        · exact hq
        · obtain ⟨q₀, hq₀, rfl⟩ := List.mem_map.mp hq
          exact absurd ⟨q₀, hq₀, hfence⟩ hnew
    have htail := (hsub.trans (List.drop_sublist _ _)).tail.subset hkept
    rw [hi.foremost q htail] at hfence
    cases hfence

/-- A `fence.i` on its way is the oldest instruction. -/
theorem Inv.oldest (hi : d.Inv mem) {q : FetchOpInfo} (hq : q ∈ d.inFlight)
    (hfence : q.fences = true) : ∃ rest, d.inFlight = q :: rest ∧ q ∉ rest := by
  have hforemost := hi.foremost
  cases hall : d.inFlight with
  | nil =>
    rw [hall] at hq
    cases hq
  | cons a rest =>
    rw [hall] at hq hforemost
    have hnot : q ∉ rest := fun hmem => by
      rw [hforemost q hmem] at hfence
      cases hfence
    rcases List.mem_cons.mp hq with rfl | hmem
    · exact ⟨rest, rfl, hnot⟩
    · exact absurd hmem hnot

/-- **A `fence.i` on its way stays in front**, and what is fetched meanwhile is behind the stores
like itself. -/
theorem Inv.pending_act (hi : d.Inv mem) (hd : ProgramReachable mem latency d)
    (hc : d.Cycle inp r f) : ∀ q rest, (d.act inp r f).inFlight = q :: rest → q.fences = true →
      (d.act inp r f).Behind mem (d.act inp r f).stored.length [] rest := by
  intro q rest hcons hfence
  obtain ⟨kept, hact, hsub⟩ := hc.inFlight_act (hi.retired_le hd hc)
  rw [hcons] at hact
  cases kept with
  | nil =>
    -- it is fetched in this cycle
    rw [List.nil_append] at hact
    obtain ⟨q₀, hq₀, rfl⟩ := List.mem_map.mp (hact ▸ List.mem_cons_self ..)
    obtain ⟨halone, -, hretired, hqueue⟩ := hi.fence_alone hd hc hq₀ hfence
    rw [halone] at hact
    rw [(List.cons.inj hact).2]
    exact .of_drained hd hc hqueue hretired
  | cons a kept =>
    obtain ⟨rfl, hrest⟩ := List.cons.inj hact
    obtain ⟨s, hall, hnot⟩ := hi.oldest
      (List.mem_of_mem_drop (hsub.subset (List.mem_cons_self ..))) hfence
    rw [hall] at hsub
    -- it is still there, and so nothing has retired
    have hretired : r.commit.retired = [] := by
      cases hk : r.commit.retired.length with
      | zero => exact List.length_eq_zero_iff.mp hk
      | succ n =>
        rw [hk, List.drop_succ_cons] at hsub
        exact absurd (List.mem_of_mem_drop (hsub.subset (List.mem_cons_self ..))) hnot
    rw [hretired] at hsub
    have hkept : kept.Sublist s := List.cons_sublist_cons.mp hsub
    rw [stored_act hretired]
    refine (hi.pending q s hall hfence).step hd hc (by simp) fun q' hq' => ?_
    rw [hrest] at hq'
    rcases List.mem_append.mp hq' with hq' | hq'
    · exact .inl (hkept.subset hq')
    · obtain ⟨q₀, hq₀, rfl⟩ := List.mem_map.mp hq'
      exact .inr ((group_read hc.fetch hi.group).2 q₀ hq₀).2.1

/-- **What retires behind a `fence.i`** is behind the stores that were in front of it. -/
theorem Inv.passed_act (hi : d.Inv mem) (hd : ProgramReachable mem latency d)
    (hc : d.Cycle inp r f) : ∀ older e newer, (d.act inp r f).log = older ++ e :: newer →
      e.origin.fences = true →
      (d.act inp r f).Behind mem (stores older).length newer (d.act inp r f).inFlight := by
  intro older e newer hlog hfence
  have hle := hi.retired_le hd hc
  -- where the `fence.i` retires now, it has been the oldest
  have hnow : ∀ l, d.retirements r = l ++ e :: newer → older = d.log ++ l →
      (d.act inp r f).Behind mem (stores older).length newer (d.act inp r f).inFlight := by
    intro l hret hold
    have hall : d.inFlight = l.map (·.origin.bare) ++ e.origin.bare
        :: (newer.map (·.origin.bare) ++ d.inFlight.drop r.commit.retired.length) := by
      have horigin := retirements_origin hle
      rw [hret, List.map_append, List.map_cons] at horigin
      rw [← List.cons_append, ← List.append_assoc, horigin, List.take_append_drop]
    have hnil : l = [] := by
      cases l with
      | nil => rfl
      | cons a l =>
        have hmem : e.origin.bare ∈ d.inFlight.tail := by
          rw [hall]
          exact List.mem_append_right _ (List.mem_cons_self ..)
        have hplain := hi.foremost _ hmem
        rw [show e.origin.bare.fences = true from hfence] at hplain
        cases hplain
    subst hnil
    rw [hold, List.append_nil, ← hi.stored]
    refine (hi.pending _ _ hall hfence).step hd hc (fun x hx => .inr ?_) fun q hq => ?_
    · obtain ⟨t, -, -, horigin, hmem⟩ := mem_retirements (d := d) (r := r)
        (by rw [hret]; exact List.mem_cons_of_mem _ hx)
      exact ⟨_, List.mem_append_left _ (List.mem_map_of_mem hx), by rw [hmem, horigin]; rfl⟩
    · rcases hi.mem_inFlight_act hd hc hq with hq | ⟨-, hle, -⟩
      · exact .inl (List.mem_append_right _ hq)
      · exact .inr hle
  rcases List.append_eq_append_iff.mp hlog with ⟨l, hold, hret⟩ | ⟨l, hpast, hnew⟩
  · exact hnow l hret hold
  · cases l with
    | nil => exact hnow [] hnew.symm (by rw [List.append_nil, hpast, List.append_nil])
    | cons a l =>
      obtain ⟨rfl, rfl⟩ := List.cons.inj hnew
      refine (hi.passed older e l hpast hfence).step hd hc (fun x hx => ?_) fun q hq => ?_
      · rcases List.mem_append.mp hx with hx | hx
        · exact .inl hx
        · obtain ⟨t, ht, -, -, hmem⟩ := mem_retirements hx
          exact .inr ⟨_, mem_inFlight ht, hmem⟩
      · rcases hi.mem_inFlight_act hd hc hq with hq | ⟨-, hle, -⟩
        · exact .inl (List.mem_of_mem_drop hq)
        · exact .inr hle

/-- **A cycle keeps the invariant.** -/
theorem Inv.step (hi : d.Inv mem) (hd : ProgramReachable mem latency d) (hc : d.Cycle inp r f) :
    (d.act inp r f).Inv mem where
  traced := hc.traced_act hi.traced
  sends := hc.sends_act hi.sends
  numbered := hi.numbered_act hd hc
  group := fun words hwords i => ⟨_, words, i, hwords, rfl, rfl⟩
  read := hi.read_act hd hc
  logged := hi.logged_act
  stored := by
    change d.stored ++ d.machine.world.core.retiredStores r.commit.retired
      = stores (d.log ++ d.retirements r)
    rw [stores_append, stores_retirements (hi.retired_le hd hc), hi.stored]
  foremost := hi.foremost_act hd hc
  pending := hi.pending_act hd hc
  passed := hi.passed_act hd hc

theorem inv_reachable (h : ProgramReachable mem latency d) : d.Inv mem := by
  induction h with
  | init => exact inv_init mem latency
  | cycle inp r f hd hc ih => exact ih.step hd hc

end ProgramWorld

/-! ## Coherence -/

/-- **The code that has retired is coherent with the stores.** Every instruction has been read
from the memory at some time; and the memory that what retires behind a `fence.i` was read from
held the stores in front of it, all of them and in order, and of the stores behind it the first
ones only. -/
structure Coherent (mem : Mem) (log : List Retirement) : Prop where
  read : ∀ e ∈ log, e.origin.Of (ReadFrom e.memory) ∧ e.info.Sends e.origin.decoded
  fenced : ∀ older e newer, log = older ++ e :: newer → e.info.op = .fenceI →
    ∀ e' ∈ newer, ∃ later, later <+: stores (e :: newer)
      ∧ e'.memory = (stores older ++ later).foldl Mem.store mem

/-- **What retires behind a `fence.i` has been read behind the stores in front of it**, whatever
the memory held, and however long it takes. -/
theorem coherent_reachable (h : ProgramReachable mem latency d) : Coherent mem d.log := by
  have hi := ProgramWorld.inv_reachable h
  refine ⟨hi.logged, fun older e newer hlog hop e' he' => ?_⟩
  have hfence : e.origin.fences = true :=
    (hi.logged e (hlog ▸ List.mem_append_right _ (List.mem_cons_self ..))).2.fences hop
  have hsince := (hi.passed older e newer hlog hfence).retired e' he'
  rw [hi.stored, hlog, stores_append] at hsince
  exact hsince.later

/-! ## A program that writes itself -/

/-- A cycle in which the units do what `inp` says. -/
def ProgramWorld.scripted (d : ProgramWorld) (inp : World → CycleInput) : ProgramWorld.Input :=
  let cycle := inp d.machine.world
  { cycle := { cycle with
      drainAck := d.system.bus.dataWriteAck.isSome
      commit := { cycle.commit with
        decodeRenameFifo := d.machine.decodeRename.map FetchOpInfo.decoded } } }

/-- The world after a script without branches, in which the load unit rests. -/
def ProgramWorld.play : List (World → CycleInput) → ProgramWorld → Option ProgramWorld
  | [], d => some d
  | inp :: script, d =>
      let inp := d.scripted inp
      if inp.cycle.bru.isNone && inp.cycle.commit.executeCommitPort.all (·.opUnit != .bru) then
        (d.machine.world.core.cycle inp.cycle).bind fun r =>
          (d.machine.fetch.front.cycle (d.machine.frontInput (inp.machine d) r)).bind fun f =>
            play script (d.act inp r f)
      else none

/-- **A script of legal and timely inputs is a run.** -/
theorem ProgramReachable.play (script : List (World → CycleInput))
    (hlegal : ∀ inp ∈ script, ∀ w, (inp w).Legal w ∧ (inp w).Timely w) {d d' : ProgramWorld}
    (hd : ProgramReachable mem latency d) (h : d.play script = some d') :
    ProgramReachable mem latency d' := by
  induction script generalizing d with
  | nil =>
    cases h
    exact hd
  | cons inp script ih =>
    unfold ProgramWorld.play at h
    dsimp only at h
    split at h
    · rename_i hplain
      rw [Bool.and_eq_true, Option.isNone_iff_eq_none, List.all_eq_true] at hplain
      obtain ⟨hbru, hother⟩ := hplain
      obtain ⟨r, hr, h⟩ := Option.bind_eq_some_iff.mp h
      obtain ⟨f, hf, h⟩ := Option.bind_eq_some_iff.mp h
      obtain ⟨hl, ht⟩ := hlegal inp (List.mem_cons_self ..) d.machine.world
      have hcycle : (d.scripted inp).cycle.Legal d.machine.world :=
        ⟨hd.machine.decoded, hl.results, hl.bru, hl.sau, hl.sdu, hl.lu⟩
      have hmachine : d.machine.Legal ((d.scripted inp).machine d) := by
        refine ⟨hcycle, rfl, fun rev hrev => ?_, fun rev hrev _ hunit => ?_⟩
        · rw [show ((d.scripted inp).machine d).cycle.bru = none from hbru] at hrev
          cases hrev
        · have hne := hother rev hrev
          rw [hunit] at hne
          cases hne
      have hmemory : d.memory.Legal (d.scripted inp).memory :=
        ⟨hcycle, ⟨ht.results, ht.sau, ht.sdu⟩, rfl⟩
      exact ih (fun i hi => hlegal i (List.mem_cons_of_mem _ hi))
        (.cycle _ r f hd ⟨⟨hmachine, hmemory⟩, hr, hf⟩) h
    · cases h

/-- `sw x0, 0(x0)`, `fence.i` and `addi x0, x0, 0`. -/
def rewriting : Mem :=
  ((Mem.write (fun _ => 0) 0 4 0x00002023).write 4 4 0x0000100f).write 8 4 0x00000013

/-- The store makes `addi x0, x0, 1` of what is behind the `fence.i`; the address and the value are
the ones the units are given. -/
def rewrites : List (World → CycleInput) :=
  (List.replicate 5 fun _ => ({} : CycleInput)) ++ oldestStore 0x80000008 0x00100013
    :: List.replicate 13 oldestDone

theorem coherent_rewrites : ∃ d, (ProgramWorld.init rewriting 0).play rewrites = some d
    ∧ d.log.map (fun e => (e.info.pc, e.info.value))
      = [(0x80000000, 0x00002023), (0x80000004, 0x0000100f), (0x80000008, 0x00100013)]
    ∧ Coherent rewriting d.log := by
  obtain ⟨d, hd⟩ : ∃ d, (ProgramWorld.init rewriting 0).play rewrites = some d :=
    Option.isSome_iff_exists.mp (by decide +kernel)
  have hlog : ((ProgramWorld.init rewriting 0).play rewrites).map
      (fun d => d.log.map fun e => (e.info.pc, e.info.value))
        = some [(0x80000000, 0x00002023), (0x80000004, 0x0000100f), (0x80000008, 0x00100013)] := by
    decide +kernel
  rw [hd, Option.map_some, Option.some.injEq] at hlog
  refine ⟨d, hd, hlog, coherent_reachable (ProgramReachable.play rewrites ?_ .init hd)⟩
  intro inp hinp w
  rcases List.mem_append.mp hinp with hinp | hinp
  · rw [(List.mem_replicate.mp hinp).2]
    exact ⟨idle_legal w, idle_timely w⟩
  · rcases List.mem_cons.mp hinp with rfl | hinp
    · exact oldestStore_ok ..
    · rw [(List.mem_replicate.mp hinp).2]
      exact oldestDone_ok w

end DreamCore
