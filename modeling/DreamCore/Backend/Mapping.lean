import DreamCore.Backend.Recovery

/-!
# The register maps

Both alias tables are searched by value: nothing in `rat.h` keeps two physical
registers from naming one architectural register, or a register from having no
home at all. The class checks it instead, at every lookup and at every mapping.

`Core.ratCalls` lists the calls one cycle makes, in order, up to the point where
the cycle aborts if it does. In a reachable world every table is the graph of an
injective map, so that no check of any of the calls fails: the tables the calls
see are those of the window, at its retired end for commit and at its young end
for rename.
-/

namespace DreamCore

open Ring

/-- **Every register has one home, and no home has two registers.** -/
structure RatTable.Unique (t : RatTable) : Prop where
  home : ∀ a, IsReg a → ∃! p, p < phyRegNum ∧ t.maps a p = true
  owner : ∀ p, p < phyRegNum → t.phyMapTableValid p = true → ∃! a, IsReg a ∧ t.maps a p = true

/-- A call of an alias table, with the table as the caller finds it. -/
inductive RatCall where
  /-- `verify(rat->producer_get_phy_id(archId, ...))`. -/
  | lookup (t : RatTable) (archId : Nat)
  /-- `rat->set_map(archId, phyId)`. -/
  | map (t : RatTable) (archId phyId : Nat)

/-- No check of the call fails. -/
def RatCall.passes : RatCall → Bool
  | .lookup t archId => (lookupPhy t true archId).isSome
  | .map t archId phyId => (t.setMap false archId phyId).isSome

/-! ## The calls of one cycle -/

/-- The call in one turn of commit's output loop, when the turn gets to it. -/
def commitOneCalls (cur : Core) (writeAck : Option BusErrno) (i : Nat) (st : CommitState) :
    List RatCall :=
  match Fifo.customerGetFrontId cur.rob st.new.rob with
  | none => []
  | some id =>
      let item := cur.rob.customerGetItem id
      if item.finish && !item.hasException && item.oldPhyRegIdValid then
        match storeBlocked cur i item st,
          andThen (commitLoad cur item st) (commitStore cur writeAck id item) with
        | some false, some (st, true) => [.map st.new.retireRat item.rd item.newPhyRegId]
        | _, _ => []
      else []

/-- The calls of `k` turns of the output loop, from turn `i` on. -/
def commitLoopCalls (cur : Core) (writeAck : Option BusErrno) (firstId : Nat) :
    Nat → Nat → CommitState → List RatCall
  | 0, _, _ => []
  | k + 1, i, st =>
      commitOneCalls cur writeAck i st ++
        match commitOne cur writeAck firstId i st with
        | some (st, true) => commitLoopCalls cur writeAck firstId k (i + 1) st
        | _ => []

/-- The calls of `commit::run`. -/
def commitCalls (cur new : Core) (inp : CommitInput) : List RatCall :=
  let st := commitInterrupt cur new inp
  match Fifo.customerGetFrontId cur.rob st.new.rob with
  | none => []
  | some firstId =>
      commitLoopCalls cur inp.writeAck firstId commitWidth 0 { st with feedback := {
        st.feedback with idle := false, nextHandleRobId := some firstId } }

/-- The calls for the destination register: the lookup, and the mapping if the free list gives
a register. -/
def renameRdCalls (cur new : Core) (rd : Nat) : List RatCall :=
  .lookup new.speculativeRat rd ::
    match FreeList.pop cur.phyIdFreeList new.phyIdFreeList with
    | some (some rdPhy, _) => [.map new.speculativeRat rd rdPhy]
    | _ => []

/-- The calls for one instruction. -/
def renameOpCalls (cur new : Core) (rev : DecodeRenamePack) : List RatCall :=
  if !rev.enable then []
  else
    (if rev.rs1NeedMap then [.lookup new.speculativeRat rev.rs1] else [])
    ++ (if rev.rs2NeedMap then [.lookup new.speculativeRat rev.rs2] else [])
    ++ if rev.valid && rev.needRename then renameRdCalls cur new rev.rd else []

/-- The calls of `k` turns of rename, from turn `i` on. -/
def renameLoopCalls (cur : Core) : Nat → Nat → Bool → Core → List DecodeRenamePack → List RatCall
  | 0, _, _, _, _ => []
  | _ + 1, _, _, _, [] => []
  | k + 1, i, foundFence, new, rev :: fifo =>
      if Fifo.producerIsEmpty cur.phyIdFreeList.ring new.phyIdFreeList.ring
          || Fifo.producerIsFull cur.rob new.rob then []
      else match renameGate cur new i foundFence rev with
        | .stop => []
        | .take last fence =>
            renameOpCalls cur new rev ++
              match renameOp cur new rev with
              | some (_, new) => if last then [] else renameLoopCalls cur k (i + 1) fence new fifo
              | none => []

/-- The calls of `rename::run`. -/
def renameCalls (cur new : Core) (dispatchStall flush waitingForInterrupt : Bool)
    (fifo : List DecodeRenamePack) : List RatCall :=
  if flush || dispatchStall || waitingForInterrupt then []
  else renameLoopCalls cur renameWidth 0 false new fifo

/-- **The calls of one cycle**, up to the point where it aborts. -/
def Core.ratCalls (cur : Core) (inp : CycleInput) : List RatCall :=
  commitCalls cur (inp.early cur) inp.commit ++
    match commitRun cur (inp.early cur) inp.commit with
    | none => []
    | some commit =>
        let flush := commit.feedback.flush
        let (bru, sau) := arbitrate (inp.bruFb cur) (inp.sauFb cur) flush
        match executeRun cur (wbRun commit.new (inp.bruFb cur) (inp.sauFb cur) flush
            (inp.commit.executeCommitPort.take 8)) inp bru sau flush with
        | none => []
        | some new =>
            renameCalls cur new inp.dispatchStall (flush || bru.flush || sau.flush)
              commit.feedback.waitingForInterrupt inp.commit.decodeRenameFifo

/-- **The alias tables of a world are sound**, and no check of theirs can fail in its next
cycle. -/
structure World.Mapped (w : World) : Prop where
  speculative : w.core.speculativeRat.Unique
  retire : w.core.retireRat.Unique
  /-- What is read between two cycles. -/
  customer : ∀ a, IsReg a → ∃ p, w.core.retireRat.customerGetPhyId a = some (some p)
  calls : ∀ inp, inp.Legal w → ∀ call ∈ w.core.ratCalls inp, call.passes = true

/-! ## Tables that hold a map -/

variable {t : RatTable} {m : Nat → Nat} {a p : Nat}

theorem Represents.unique (h : Represents t m) : t.Unique where
  home := by
    intro a ha
    refine ⟨m a, ⟨h.lt a ha, (h.maps_iff (h.lt a ha) ha).mpr rfl⟩, ?_⟩
    rintro q ⟨hq, hm⟩
    exact ((h.maps_iff hq ha).mp hm).symm
  owner := by
    intro p hp hv
    obtain ⟨a, ha, rfl⟩ := (h.valid p hp).mp hv
    refine ⟨a, ⟨ha, (h.maps_iff hp ha).mpr rfl⟩, ?_⟩
    rintro b ⟨hb, hm⟩
    exact h.inj hb ha ((h.maps_iff hp hb).mp hm)

theorem Represents.lookup_passes (h : Represents t m) (ha : IsReg a) :
    (RatCall.lookup t a).passes = true := by
  have hl := h.lookup_eq ha
  simp [RatCall.passes, lookupPhy, hl]

/-- **A register that is nobody's home can be mapped.** -/
theorem Represents.map_passes (h : Represents t m) (ha : IsReg a) (hp : p < phyRegNum)
    (hfree : ∀ b, IsReg b → m b ≠ p) : (RatCall.map t a p).passes = true := by
  have hv : t.phyMapTableValid p = false := by
    rw [Bool.eq_false_iff]
    intro hc
    obtain ⟨b, hb, he⟩ := (h.valid p hp).mp hc
    exact hfree b hb he
  have hl := h.lookup_eq ha
  have hreg : 0 < a ∧ a < archRegNum := ha
  simp [RatCall.passes, RatTable.setMap, hl, hv, hp, hreg, guard]

/-! ## Commit -/

variable {cur s : Core} {st st' : CommitState} {writeAck : Option BusErrno} {g₀ g : Ghost}
  {k : Nat}

/-- The register of the oldest instruction is not yet anyone's retired home. -/
theorem Inv.frontFresh (h : Inv s g) {f : Flight} {rest : List Flight}
    (hf : g.flight = f :: rest) (hal : f.info.allocates = true) :
    IsReg f.info.rd ∧ f.info.rdPhy < phyRegNum ∧ ∀ a, IsReg a → g.base.map a ≠ f.info.rdPhy := by
  obtain ⟨hreg, hbuf⟩ := (h.frontEntry hf).dest hal
  have hlt : g.base.free < g.freed := by
    have hle := g.advance_free_le_tip (show g.flight = [] ++ f :: rest from hf)
    have htip := h.free.le
    simp only [Window.tip_nil, advance, hal, Bool.toNat_true] at hle
    omega
  have hnd := h.nodup
  rw [slots_succ_left _ hlt, List.cons_append, List.nodup_cons, hbuf] at hnd
  refine ⟨hreg, h.bound _ (mem_slots.mpr ⟨_, Nat.le_refl _, hlt, hbuf.symm⟩), ?_⟩
  intro a ha he
  exact hnd.1 (List.mem_append_right _ (mem_homes.mpr ⟨a, ha, he⟩))

/-- **The mapping of the entry at the front goes through.** -/
theorem Committing.calls (hc : Committing cur g₀ k st) (i : Nat) :
    ∀ call ∈ commitOneCalls cur writeAck i st, call.passes = true := by
  intro call hcall
  unfold commitOneCalls at hcall
  split at hcall
  · cases hcall
  · rename_i id hid
    dsimp only [Fifo.customerGetItem] at hcall
    split at hcall
    · rename_i hitem
      simp only [Bool.and_eq_true, Bool.not_eq_true'] at hitem
      obtain ⟨⟨hfin, -⟩, hold⟩ := hitem
      split at hcall
      · rename_i _ st₂ _ hturn
        obtain ⟨-, f, rest, hf, -, ht, -⟩ := hc.front hid
        obtain ⟨st₁, h₁, h₂⟩ : ∃ st₁, commitLoad cur (cur.rob.buffer id) st = some (st₁, true)
            ∧ commitStore cur writeAck id (cur.rob.buffer id) st₁ = some (st₂, true) := by
          rcases andThen_eq_some hturn with h | ⟨-, hgo⟩
          · exact h
          · cases hgo
        obtain ⟨-, b, r, hnew⟩ := commitHandles_retire (hc.plainLoad hid hfin) h₁ h₂
        have hal : f.info.allocates = true := ht.allocates.symm.trans hold
        obtain ⟨hreg, hlt, hfresh⟩ := hc.inv.frontFresh hf hal
        obtain rfl := List.mem_singleton.mp hcall
        rw [hnew, (ht.oldPhyRegId hal).2, ht.newPhyRegId]
        exact hc.inv.retire.map_passes hreg hlt hfresh
      · cases hcall
    · cases hcall

/-- **Every mapping of the output loop goes through.** -/
theorem Committing.loopCalls {firstId n : Nat} (hc : Committing cur g₀ k st) :
    ∀ call ∈ commitLoopCalls cur writeAck firstId n k st, call.passes = true := by
  induction n generalizing k st with
  | zero =>
    intro call hcall
    cases hcall
  | succ n ih =>
    intro call hcall
    unfold commitLoopCalls at hcall
    rcases List.mem_append.mp hcall with hcall | hcall
    · exact hc.calls k call hcall
    · split at hcall
      · rename_i st' hone
        have hturn := commitOne_turn (fun id hid hfin => hc.plainLoad hid hfin) hone
        rcases hc.turn true (fun _ _ _ _ _ => rfl) hturn with ⟨hc', -⟩ | ⟨hgo, -⟩
        · exact ih hc' call hcall
        · cases hgo
      · cases hcall

/-! ## Rename -/

variable {rev : DecodeRenamePack} {fifo : List DecodeRenamePack}

/-- **The calls for one instruction go through**: what it reads has a home, and what it pops is
nobody's. -/
theorem Inv.renameOpCalls (hcur : Inv cur g₀) (h : Inv s g) (hb : Behind cur s g₀ g)
    (hrev : rev.RegsOk) : ∀ call ∈ DreamCore.renameOpCalls cur s rev, call.passes = true := by
  intro call hcall
  unfold DreamCore.renameOpCalls at hcall
  split at hcall
  · cases hcall
  · rcases List.mem_append.mp hcall with hcall | hcall
    · rcases List.mem_append.mp hcall with hcall | hcall
      · split at hcall
        · rename_i hneed
          obtain rfl := List.mem_singleton.mp hcall
          exact h.spec.lookup_passes (hrev.rs1 hneed)
        · cases hcall
      · split at hcall
        · rename_i hneed
          obtain rfl := List.mem_singleton.mp hcall
          exact h.spec.lookup_passes (hrev.rs2 hneed)
        · cases hcall
    · split at hcall
      · rename_i hneed
        rw [Bool.and_eq_true] at hneed
        have hreg := hrev.rd hneed.2
        rcases List.mem_cons.mp hcall with rfl | hcall
        · exact h.spec.lookup_passes hreg
        · split at hcall
          · rename_i rdPhy fl hpop
            obtain rfl := List.mem_singleton.mp hcall
            obtain ⟨hring, hlt⟩ := FreeList.pop_eq_some hpop
            obtain ⟨hfree, -, -, hx⟩ := h.free.pop (by decide) hcur.free.wptr hb.free.2 hb.free.1
              hring
            refine h.spec.map_passes hreg hlt ?_
            intro b hb' he
            refine h.fresh (Nat.lt_of_lt_of_le hfree hb.free.1) (List.append_nil _).symm hb' ?_
            rw [hb.frame _ (Nat.le_refl _) hfree]
            exact he.trans hx
          · cases hcall
      · cases hcall

/-- **The calls of the loop go through**, turn by turn. -/
theorem Inv.renameLoopCalls (hcur : Inv cur g₀) {n i : Nat} {foundFence : Bool} (h : Inv s g)
    (hb : Behind cur s g₀ g) (hfifo : ∀ p ∈ fifo, p.Shaped ∧ p.RegsOk) :
    ∀ call ∈ DreamCore.renameLoopCalls cur n i foundFence s fifo, call.passes = true := by
  induction n generalizing i foundFence s g fifo with
  | zero =>
    intro call hcall
    cases hcall
  | succ n ih =>
    cases fifo with
    | nil =>
      intro call hcall
      cases hcall
    | cons rev fifo =>
      intro call hcall
      obtain ⟨hshaped, hregs⟩ := hfifo rev (List.mem_cons_self ..)
      unfold DreamCore.renameLoopCalls at hcall
      split at hcall
      · cases hcall
      · split at hcall
        · cases hcall
        · rename_i last fence _
          rcases List.mem_append.mp hcall with hcall | hcall
          · exact hcur.renameOpCalls h hb hregs call hcall
          · split at hcall
            · rename_i info s₁ ho
              obtain ⟨h₁, hb₁⟩ := hcur.afterRename h hb hshaped ho
              split at hcall
              · cases hcall
              · exact ih h₁ hb₁ (fun p hp => hfifo p (List.mem_cons_of_mem _ hp)) call hcall
            · cases hcall

/-! ## The cycle -/

variable {w : World} {inp : CycleInput} {commit : CommitState}

/-- **No check of the alias tables fails in a cycle.** -/
theorem World.Holds.ratCalls (hw : w.Holds g₀) (hl : inp.Legal w) :
    ∀ call ∈ w.core.ratCalls inp, call.passes = true := by
  intro call hcall
  unfold Core.ratCalls at hcall
  rcases List.mem_append.mp hcall with hcall | hcall
  · -- commit works on the retired end of the window
    unfold commitCalls at hcall
    dsimp only at hcall
    split at hcall
    · cases hcall
    · rename_i firstId hfront
      rcases commitInterrupt_cases w.core (inp.early w.core) inp.commit with
        ⟨wait, hint⟩ | ⟨he, hsame, -, -⟩
      · rw [hint] at hcall
        have hstart : Committing w.core g₀ 0 { new := inp.early w.core, feedback := {
            waitingForInterrupt := wait, idle := false, nextHandleRobId := some firstId } } :=
          Committing.start hw.inv (early_sameWindow w.core inp) rfl rfl
        exact hstart.loopCalls call hcall
      · rw [front_none.mpr (by rw [Fifo.customerIsEmpty, hsame.rob]; exact he)] at hfront
        cases hfront
  · split at hcall
    · cases hcall
    · rename_i commit hcommit
      dsimp only at hcall
      rw [arbitrate_eq (hw.inv.sauFb_flush inp)] at hcall
      cases hfl : commit.feedback.flush with
      | true =>
        -- behind a flush of commit rename does not run
        simp only [hfl, Bool.true_or, renameCalls, if_true] at hcall
        split at hcall <;> cases hcall
      | false =>
        simp only [hfl, Bool.false_eq_true, if_false, Bool.false_or] at hcall
        split at hcall
        · cases hcall
        · rename_i s hexec
          unfold renameCalls at hcall
          split at hcall
          · cases hcall
          · rename_i hrun
            simp only [Bool.or_eq_true, not_or, Bool.not_eq_true] at hrun
            obtain ⟨k, hg, hb⟩ := hw.beforeRename hl hcommit hfl hrun.1.1.1 hexec
            refine hw.inv.renameLoopCalls hg hb ?_ call hcall
            intro p hp
            obtain ⟨rev, hrev, rfl⟩ := hl.decoded p hp
            exact ⟨decode_shaped hrev, decode_regsOk rev⟩

/-- **RAT uniqueness.** In every reachable world both tables map every register to exactly one
valid physical register and no physical register twice, and the next cycle, whatever it is, makes
no call that fails one of the checks. -/
theorem rat_unique {w : World} (hw : Reachable w) : w.Mapped := by
  obtain ⟨g, hg⟩ := hw.holds
  refine ⟨hg.inv.spec.unique, hg.inv.retire.unique, ?_, ?_⟩
  · intro a ha
    exact ⟨_, hg.inv.retire.lookup_eq ha⟩
  · intro inp hl
    exact hg.ratCalls hl

/-- `addi x1, x0, 5`, `addi x1, x1, 1` and `add x2, x1, x1`: two writes of a register in a group,
and a read of each. -/
def writeTwice : List Fetch2DecodePack :=
  [plainPack 0x80000000 0x00500093, plainPack 0x80000004 0x00108093,
    plainPack 0x80000008 0x00108133]

/-- The world in which all three have been renamed. -/
def writtenTwice : World := World.init.playFrom [fun _ => fetchPacks writeTwice]

theorem rat_unique_writtenTwice : writtenTwice.Mapped := by
  refine rat_unique (Run.play (P := fun _ _ => true) _ (fun _ _ _ => trivial) ?_ .init
    (World.play_eq_some (by decide +kernel)))
  intro inp hinp w
  rw [List.mem_singleton.mp hinp]
  exact fetchPacks_legal (by simp [writeTwice, plainPack_ok]) w

end DreamCore
