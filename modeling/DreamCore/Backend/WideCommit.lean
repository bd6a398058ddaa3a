import DreamCore.Backend.Sequential
import DreamCore.Backend.Serial
import DreamCore.Backend.Stores

/-!
# Wide commit is sequential commit

The turns of the wide output loop are, one after the other, the first turns of
the cycles of a commit that handles one instruction and syncs its registers. The
first of them begins with the same snapshot; for the later ones the snapshot that
has been synced reads as the one the wide cycle began with.

There is one read for which that takes more: `mret` computes `mstatus` from the
value the cycle began with. No CSR instruction retires before it in the same cycle,
because dispatch lets a CSR instruction run alone.
-/

namespace DreamCore

open Ring

variable {cur s : Core} {st st' sq : CommitState} {go : Bool} {q : List (Nat × RobItem)} {b : Bool}
  {g₀ : Ghost} {k n : Nat} {inp : CommitInput}

/-- The input part of commit. -/
def CommitState.input (cur : Core) (ports : List ExecuteWbPack) (st : CommitState) : CommitState :=
  if st.needFlush then st else { st with new := ports.foldl (commitInput cur) st.new }

/-- **A cycle of commit alone** is its loop and its input part, when there is an entry to look
at. -/
theorem commitCycle_eq {first : Nat} (hfront : Fifo.customerGetFrontId s.rob s.rob = some first)
    (inp : CommitInput) :
    ∃ sq fb, sq.Starts s ∧ sq = { new := { s with committed := false }, feedback := fb }
      ∧ fb.flush = false ∧ fb.hasException = false ∧ ∀ width ports,
      s.commitCycle width { inp with executeCommitPort := ports }
        = (commitLoop s inp.writeAck first width 0 sq).map fun st => st.input s ports := by
  have hint : ∃ w, ∀ ports, commitInterrupt s { s with committed := false }
      { inp with executeCommitPort := ports }
      = { new := { s with committed := false }, feedback := { waitingForInterrupt := w } } := by
    rcases commitInterrupt_cases s { s with committed := false } inp with ⟨w, hw⟩ | ⟨he, -⟩
    · exact ⟨w, fun ports => hw⟩
    · have hnone := front_none.mpr he
      rw [show Fifo.customerGetFrontId s.rob ({ s with committed := false } : Core).rob = some first
        from hfront] at hnone
      cases hnone
  obtain ⟨w, hw⟩ := hint
  refine ⟨_, { waitingForInterrupt := w, idle := false, nextHandleRobId := some first },
    ⟨rfl, rfl, rfl⟩, rfl, rfl, rfl, fun width ports => ?_⟩
  unfold Core.commitCycle commitRunWidth
  rw [hw]
  dsimp only
  rw [hfront]
  dsimp only
  cases commitLoop s inp.writeAck first width 0 _ with
  | none => rfl
  | some st =>
    simp only [Option.bind_eq_bind, Option.bind_some, Option.map_some, CommitState.input]
    split <;> rfl

theorem commitLoop_one (cur : Core) (writeAck : Option BusErrno) (first i : Nat) (st : CommitState) :
    commitLoop cur writeAck first 1 i st = (commitOne cur writeAck first i st).map Prod.fst := by
  unfold commitLoop
  cases commitOne cur writeAck first i st with
  | none => rfl
  | some r => cases r.2 <;> simp [commitLoop]

/-- The cells of the ROB after the results depend on the cells before. -/
theorem Core.merged_congr (h : s.rob.buffer = cur.rob.buffer) (ports : List ExecuteWbPack) :
    s.merged ports = cur.merged ports := by
  unfold Core.merged Core.mergeOne
  rw [h]

/-- No turn writes a cell of the ROB. -/
theorem CommitTurn.robBuffer (h : CommitTurn cur st st' go) :
    st'.new.rob.buffer = st.new.rob.buffer := by
  cases h with
  | pause hw _ => rw [hw.rob]
  | exception id s s' _ _ _ hw hf hw' _ => rw [hw'.rob, hf.rob, Fifo.flush_buffer, hw.rob]
  | conflict id _ _ hf _ => rw [hf.rob, Fifo.flush_buffer]
  | retire id s _ _ _ hr hw _ _ _ _ _ => rw [hw.rob, hr.rob, Fifo.drop_buffer]
  | mispredict id s s' _ _ _ hr hw hf _ =>
    rw [hf.rob, Fifo.flush_buffer, hw.rob, hr.rob, Fifo.drop_buffer]

/-- **The cycles `sts` leave what the wide cycle `st` leaves.** `q` had been logged before, and `b`
says whether something had been committed. -/
def CommitState.Equals (q : List (Nat × RobItem)) (b : Bool) (st : CommitState)
    (sts : List CommitState) : Prop :=
  ∃ last, sts.getLast? = some last
    ∧ st.new = { last.new with committed := b || sts.any fun sq => sq.new.committed }
    ∧ st.retireQueue = q ++ sts.flatMap CommitState.retireQueue ∧ st.needFlush = last.needFlush

/-- The fields of a turn's result that a later cycle or the log sees. -/
structure CommitState.SameResult (st st' : CommitState) : Prop where
  new : st'.new = st.new
  retireQueue : st'.retireQueue = st.retireQueue
  needFlush : st'.needFlush = st.needFlush

theorem CommitState.Follows.congr (hf : st.Follows q b sq) (h : st.SameResult st') :
    st'.Follows q b sq :=
  ⟨by rw [h.new]; exact hf.new, by rw [h.new]; exact hf.committed, by rw [h.retireQueue]; exact hf.queue,
    by rw [h.needFlush]; exact hf.needFlush⟩

theorem CommitState.Follows.equals (hf : st.Follows q b sq) : st.Equals q b [sq] := by
  refine ⟨sq, rfl, ?_, ?_, hf.needFlush.symm⟩
  · have hcom : (b || [sq].any fun sq => sq.new.committed) = st.new.committed := by
      rw [hf.committed]
      simp
    rw [hcom, hf.new]
  · rw [hf.queue]
    simp

/-- **One cycle for one turn**: the input part keeps the two machines together. -/
theorem CommitState.Follows.input (hf : st.Follows q b sq) (hs : s.rob.buffer = cur.rob.buffer)
    (hst : st.new.rob.buffer = cur.rob.buffer) (ports : List ExecuteWbPack) :
    (st.input cur ports).Follows q b (sq.input s ports) := by
  have hsq : sq.new.rob.buffer = s.rob.buffer := by
    rw [hf.new, hs]
    exact hst
  unfold CommitState.input
  cases hn : st.needFlush with
  | true =>
    rw [if_pos (hf.needFlush.trans hn), if_pos rfl]
    exact hf
  | false =>
    have hn' : ¬ sq.needFlush = true := by rw [hf.needFlush, hn]; exact Bool.false_ne_true
    rw [if_neg hn', if_neg Bool.false_ne_true]
    refine ⟨?_, ?_, hf.queue, hf.needFlush.trans hn⟩
    · rw [foldl_commitInput cur ports hst, foldl_commitInput s ports hsq, Core.merged_congr hs]
      dsimp only
      rw [hf.new]
    · rw [foldl_commitInput cur ports hst, foldl_commitInput s ports hsq]
      exact hf.committed

/-- The input part changes neither what has been logged nor whether there was a flush. -/
theorem CommitState.input_log (cur : Core) (ports : List ExecuteWbPack) (st : CommitState) :
    (st.input cur ports).retireQueue = st.retireQueue
      ∧ (st.input cur ports).needFlush = st.needFlush := by
  unfold CommitState.input
  split <;> exact ⟨rfl, rfl⟩

/-- Without results there is nothing to do. -/
theorem CommitState.input_nil (cur : Core) (st : CommitState) : st.input cur [] = st := by
  unfold CommitState.input
  split <;> rfl

/-- **From one turn on.** When the narrow machine follows a turn of the wide commit in one cycle,
and the turns behind that one in the cycles behind it, it follows them all. -/
theorem oneByOne_turn {first : Nat} {st₁ sq' : CommitState}
    (hcycle : ∀ width ports, s.commitCycle width { inp with executeCommitPort := ports }
      = (commitLoop s inp.writeAck first width 0 sq).map fun st => st.input s ports)
    (hone : commitOne s inp.writeAck first 0 sq = some (sq', go))
    (hfol : st₁.Follows q b sq') (hhandles : sq'.HandlesOne)
    (hlen : go = true → st₁.retireQueue.length = q.length + 1)
    (hs : s.rob.buffer = cur.rob.buffer) (hst : st₁.new.rob.buffer = cur.rob.buffer)
    (hrest : st₁.SameResult st' ∨ (go = true ∧ st₁.needFlush = false
      ∧ ∀ s₁ : Core, s₁ = { st₁.new with committed := s₁.committed } →
        ∃ sts, OneByOne inp s₁ sts ∧ sts.length ≤ n
          ∧ (st'.input cur inp.executeCommitPort).Equals st₁.retireQueue st₁.new.committed sts)) :
    ∃ sts, OneByOne inp s sts ∧ sts.length ≤ n + 1
      ∧ (st'.input cur inp.executeCommitPort).Equals q b sts := by
  have hnarrow : ∀ ports, s.commitCycle 1 { inp with executeCommitPort := ports }
      = some (sq'.input s ports) := fun ports => by
    rw [hcycle, commitLoop_one, hone]
    rfl
  rcases hrest with hsame | ⟨rfl, hflush, hrest⟩
  · -- nothing is left for a later cycle, so the results come in with this one
    refine ⟨[sq'.input s inp.executeCommitPort], .last (hnarrow inp.executeCommitPort) ?_,
      Nat.le_add_left 1 n, ?_⟩
    · obtain ⟨hq, hn⟩ := sq'.input_log s inp.executeCommitPort
      unfold CommitState.HandlesOne
      rw [hq, hn]
      exact hhandles
    · have hst' : st'.new.rob.buffer = cur.rob.buffer := by rw [hsame.new, hst]
      exact ((hfol.congr hsame).input hs hst' inp.executeCommitPort).equals
  · obtain ⟨sts, hones, hle, last, hlast, hnew, hqueue, hneed⟩ := hrest sq'.new hfol.new
    have hcyc := hnarrow []
    rw [CommitState.input_nil] at hcyc
    have hqueue' := congrArg List.length hfol.queue
    rw [hlen rfl, List.length_append] at hqueue'
    refine ⟨sq' :: sts, .next hcyc (by omega) (hfol.needFlush.trans hflush) hones,
      Nat.succ_le_succ hle, last, ?_, ?_, ?_, hneed⟩
    · cases sts with
      | nil => cases hlast
      | cons sq₁ sts => exact hlast
    · rw [hnew, hfol.committed, List.any_cons, Bool.or_assoc]
    · rw [hqueue, hfol.queue, List.flatMap_cons, List.append_assoc]

/-- Of the finished instructions at the old end of the window, only the last writes a CSR. -/
def Core.CsrLast (cur : Core) (fl : List Flight) : Prop :=
  ∀ k < fl.length, (∀ f ∈ fl.take (k + 1), (cur.rob.buffer f.info.robId.id).finish = true) →
    ∀ f ∈ fl.take k, (cur.rob.buffer f.info.robId.id).csrNewvalueValid = false

/-- **The turns behind the first** are the cycles of a narrow machine. -/
theorem commitLoop_oneByOne {firstId : Nat} (hcur : Inv cur g₀) (hlast : cur.CsrLast g₀.flight)
    (hc : Committing cur g₀ k st) (hpos : k ≠ 0) (hk : st.Keeps cur)
    (h : commitLoop cur inp.writeAck firstId n k st = some st') :
    st.SameResult st' ∨ ∀ s : Core, s = { st.new with committed := s.committed } →
      ∃ sts, OneByOne inp s sts ∧ sts.length ≤ n
        ∧ (st'.input cur inp.executeCommitPort).Equals st.retireQueue st.new.committed sts := by
  induction n generalizing k st with
  | zero =>
    cases h
    exact .inl ⟨rfl, rfl, rfl⟩
  | succ n ih =>
    obtain ⟨⟨st₁, go⟩, h₁, h₂⟩ := Option.bind_eq_some_iff.mp h
    have hplain := fun i hid hfin => @Committing.plainLoad _ _ _ _ hc i hid hfin
    have hcsr : ∀ id, Fifo.customerGetFrontId cur.rob st.new.rob = some id →
        (cur.rob.buffer id).finish = true →
        ∀ e ∈ st.retireQueue, e.2.csrNewvalueValid = false := by
      intro id hid hfin e he
      obtain ⟨-, f, rest, hf, rfl, -⟩ := hc.front hid
      rw [Ghost.retireN_flight] at hf
      have hget : g₀.flight[k]? = some f := by
        rw [← List.head?_drop, hf]
        rfl
      rw [hc.queue] at he
      obtain ⟨f', hf', rfl⟩ := List.mem_map.mp he
      obtain ⟨hlt, -⟩ := List.getElem?_eq_some_iff.mp hget
      refine hlast k hlt (fun f₁ hf₁ => ?_) f' hf'
      rw [List.take_add_one, hget, List.mem_append] at hf₁
      rcases hf₁ with hf₁ | hf₁
      · exact hc.finished f₁ hf₁
      · rw [List.mem_singleton.mp hf₁]
        exact hfin
    rcases commitOne_follows hc hcur hpos hk hcsr h₁ with ⟨rfl, hn, hq, hf⟩ | hturn
    · cases h₂
      exact .inl ⟨hn, hq, hf⟩
    refine .inr fun s hs => ?_
    obtain ⟨first, hfront, hturn⟩ := hturn s hs
    obtain ⟨sq, -, hstart, -, -, -, hcycle⟩ := commitCycle_eq hfront inp
    obtain ⟨sq', hone, hfol, hhandles⟩ := hturn sq hstart
    have hct := commitOne_turn hplain h₁
    have hbuf : s.rob.buffer = cur.rob.buffer := by
      rw [hs]
      exact hc.tail.robBuffer.symm
    refine oneByOne_turn hcycle hone hfol hhandles (fun hgo => ?_) hbuf
      (hct.robBuffer.trans hc.tail.robBuffer.symm) ?_
    · subst hgo
      cases hct with
      | retire id s' _ _ _ _ _ _ _ _ hq _ => rw [hq, List.length_append]; rfl
    · cases go with
      | false =>
        cases h₂
        exact .inl ⟨rfl, rfl, rfl⟩
      | true =>
        rcases hc.turn true (fun _ _ _ _ _ => rfl) hct with ⟨hc₁, -⟩ | ⟨hgo, -⟩
        · rcases ih hc₁ (Nat.succ_ne_zero k) (commitOne_keeps hplain hk h₁) h₂ with hsame | hrest
          · exact .inl hsame
          · exact .inr ⟨rfl, hc₁.needFlush, hrest⟩
        · cases hgo

/-- **A wide cycle that handles something** is a run of narrow ones. -/
theorem commitCycle_oneByOne (hcur : Inv cur g₀) (hlast : cur.CsrLast g₀.flight)
    (hint : inp.lines.getCause cur.csrFile = none)
    (h : cur.commitCycle (n + 1) inp = some st)
    (hdone : st.retireQueue ≠ [] ∨ st.needFlush = true) :
    ∃ sts, OneByOne inp cur sts ∧ sts.length ≤ n + 1 ∧ st.Equals [] false sts := by
  cases hfront : Fifo.customerGetFrontId cur.rob cur.rob with
  | none =>
    -- with nothing in the ROB and no interrupt the cycle does nothing
    unfold Core.commitCycle commitRunWidth commitInterrupt at h
    rw [hint] at h
    dsimp only at h
    rw [hfront] at h
    cases h
    rcases hdone with hq | hn
    · exact absurd rfl hq
    · cases hn
  | some first =>
    obtain ⟨sq, fb, hstart, hsq, hfl, hex, hcycle⟩ := commitCycle_eq hfront inp
    have hwide := hcycle (n + 1) inp.executeCommitPort
    rw [show { inp with executeCommitPort := inp.executeCommitPort } = inp from rfl, h] at hwide
    obtain ⟨st', hloop, rfl⟩ := Option.map_eq_some_iff.mp hwide.symm
    have hsame : cur.SameWindow { cur with committed := false } :=
      ⟨rfl, rfl, rfl, rfl, rfl, rfl, rfl, id, rfl, rfl⟩
    have hc : Committing cur g₀ 0 sq := by
      rw [hsq]
      exact .start hcur hsame hfl hex
    obtain ⟨⟨st₁, go⟩, h₁, h₂⟩ := Option.bind_eq_some_iff.mp hloop
    have hplain := fun i hid hfin => @Committing.plainLoad _ _ _ _ hc i hid hfin
    have hct := commitOne_turn hplain h₁
    have hkeeps : sq.Keeps cur := by
      rw [hsq]
      exact ⟨rfl, fun _ => rfl⟩
    have hfol : st₁.Follows [] false st₁ := ⟨rfl, rfl, rfl, rfl⟩
    refine oneByOne_turn hcycle h₁ hfol ?_ (fun hgo => ?_) rfl
      (hct.robBuffer.trans hc.tail.robBuffer.symm) ?_
    · -- the first turn handles an entry, or the cycle handles none
      cases go with
      | false =>
        cases h₂
        obtain ⟨hq, hn⟩ := st₁.input_log cur inp.executeCommitPort
        rw [hq, hn] at hdone
        have hlen : st₁.retireQueue.length ≤ 1 := by
          have hq₀ := hstart.retireQueue
          cases hct with
          | pause _ hl => rw [hl.retireQueue, hq₀]; exact Nat.zero_le 1
          | exception _ _ _ _ _ _ _ _ _ hl => rw [hl.retireQueue, hq₀]; exact Nat.le_refl 1
          | conflict _ _ _ _ hl => rw [hl.retireQueue, hq₀]; exact Nat.zero_le 1
          | retire _ _ _ _ _ _ _ _ _ _ hq _ => rw [hq, hq₀]; exact Nat.le_refl 1
          | mispredict _ _ _ _ _ _ _ _ _ hl => rw [hl.retireQueue, hq₀]; exact Nat.le_refl 1
        by_cases hnil : st₁.retireQueue = []
        · exact .inr ⟨hnil, hdone.resolve_left fun h => h hnil⟩
        · have := List.length_pos_iff.mpr hnil
          exact .inl (by omega)
      | true =>
        cases hct with
        | retire _ _ _ _ _ _ _ _ _ _ hq _ => exact .inl (by rw [hq, hstart.retireQueue]; rfl)
    · subst hgo
      cases hct with
      | retire _ _ _ _ _ _ _ _ _ _ hq _ => rw [hq, hstart.retireQueue]; rfl
    · cases go with
      | false =>
        cases h₂
        exact .inl ⟨rfl, rfl, rfl⟩
      | true =>
        rcases hc.turn true (fun _ _ _ _ _ => rfl) hct with ⟨hc₁, -⟩ | ⟨hgo, -⟩
        · have hloop₁ := commitLoop_oneByOne hcur hlast hc₁ (Nat.succ_ne_zero 0)
            (commitOne_keeps hplain hkeeps h₁) h₂
          rcases hloop₁ with hsame' | hrest
          · exact .inl hsame'
          · exact .inr ⟨rfl, hc₁.needFlush, hrest⟩
        · cases hgo

/-! ## A CSR write is the last of its cycle -/

/-- **What a unit sends to commit for the instruction `info`.** Of the load and store units all that
matters is that they leave the CSRs alone. -/
inductive UnitResult (info : OpInfo) : ExecuteWbPack → Prop where
  | alu (rev : ReadregExecutePack) : info.opUnit = .alu → UnitResult info (aluCompute rev)
  | bru (csr : CsrFile) (rev : ReadregExecutePack) : info.opUnit = .bru →
      UnitResult info (bruCompute csr rev)
  | csr (bank : CsrBank) (rev : ReadregExecutePack) : info.opUnit = .csr →
      UnitResult info (csrCompute bank rev)
  | div (rev : ReadregExecutePack) : info.opUnit = .div → UnitResult info (divCompute rev)
  | mul (rev : ReadregExecutePack) : info.opUnit = .mul → UnitResult info (mulCompute rev)
  | lsu (rev : ExecuteWbPack) : info.opUnit.isLsu = true → rev.csrNewvalueValid = false →
      UnitResult info rev

/-- The results of the cycle come from the units their instructions were sent to. -/
def PipeInput.Computed (p : Pipe) (inp : PipeInput) : Prop :=
  ∀ rev ∈ inp.cycle.commit.executeCommitPort, rev.enable = true →
    ∃ f ∈ p.world.flight, f.info.robId = rev.robId ∧ UnitResult f.info rev

theorem aluCompute_csr (rev : ReadregExecutePack) : (aluCompute rev).csrNewvalueValid = false := by
  have hout : ∀ op send, (aluOutcome rev op send).csrNewvalueValid = send.csrNewvalueValid := by
    intro op send
    cases op <;> rfl
  unfold aluCompute
  dsimp only
  split
  · split
    · exact hout _ _
    · rfl
    · rfl
  · rfl

theorem bruCompute_csr (csr : CsrFile) (rev : ReadregExecutePack) :
    (bruCompute csr rev).csrNewvalueValid = false := by
  have hout : ∀ op send, (bruOutcome csr rev op send).csrNewvalueValid = send.csrNewvalueValid := by
    intro op send
    cases op <;> rfl
  unfold bruCompute
  dsimp only
  split
  · split
    · exact hout _ _
    · exact hout _ _
  · split <;> rfl

theorem divCompute_csr (rev : ReadregExecutePack) : (divCompute rev).csrNewvalueValid = false := by
  unfold divCompute
  dsimp only
  split
  · rename_i op _ _
    cases op <;> rfl
  · rfl

theorem mulCompute_csr (rev : ReadregExecutePack) : (mulCompute rev).csrNewvalueValid = false := by
  unfold mulCompute
  dsimp only
  split
  · rename_i op _ _
    cases op <;> rfl
  · rfl

/-- **Only the CSR unit writes a CSR.** -/
theorem UnitResult.csr_unit {info : OpInfo} {rev : ExecuteWbPack} (h : UnitResult info rev)
    (hv : rev.csrNewvalueValid = true) : info.opUnit = .csr := by
  cases h with
  | csr bank rev hu => exact hu
  | lsu rev _ hn =>
    rw [hn] at hv
    cases hv
  | alu rev _ =>
    rw [aluCompute_csr] at hv
    cases hv
  | bru csr rev _ =>
    rw [bruCompute_csr] at hv
    cases hv
  | div rev _ =>
    rw [divCompute_csr] at hv
    cases hv
  | mul rev _ =>
    rw [mulCompute_csr] at hv
    cases hv

/-- **What the ROB entry of an instruction says of CSRs** is what the instruction is. -/
structure Flight.Traced (s : Core) (f : Flight) : Prop where
  csr : (s.rob.buffer f.info.robId.id).csrNewvalueValid = true → f.info.opUnit = .csr
  valid : f.info.opUnit ≠ .alu → (f.info.valid && !f.info.hasException) = true

/-- An instruction the decoder finds invalid goes to the ALU. -/
theorem decode_unit {rev : Fetch2DecodePack} (h : (decode rev).opUnit ≠ .alu) :
    ((decode rev).valid && !(decode rev).hasException) = true := by
  have hd := decodeSwitch_decodes rev.value (p := decodeStart rev) rfl rfl
  unfold decode at h ⊢
  dsimp only [DecodeRenamePack.setNeedMap] at h ⊢
  split at h
  · rename_i hv
    rw [if_pos hv]
    have hstart : (!rev.hasException) = true := hd.valid hv
    rw [hv, hstart]
    rfl
  · exact absurd rfl h

/-- No instruction is one for the address unit. -/
theorem OpInfo.Sends.unit_ne_sau {info : OpInfo} {rev : Fetch2DecodePack}
    (h : info.Sends (decode rev)) : info.opUnit ≠ .sau := by
  rw [show info.opUnit = (decode rev).opUnit from congrArg (·.opUnit) h]
  have hsw := decodeSwitch_unit rev.value (p := decodeStart rev) rfl
  unfold decode
  dsimp only [DecodeRenamePack.setNeedMap]
  split
  · exact hsw
  · exact fun h => by cases h

/-- An instruction for any other unit is valid. -/
theorem OpInfo.Sends.unit_valid {info : OpInfo} {rev : Fetch2DecodePack}
    (h : info.Sends (decode rev)) (hu : info.opUnit ≠ .alu) :
    (info.valid && !info.hasException) = true := by
  rw [show info.opUnit = (decode rev).opUnit from congrArg (·.opUnit) h] at hu
  rw [show info.valid = (decode rev).valid from congrArg (·.valid) h,
    show info.hasException = (decode rev).hasException from congrArg (·.hasException) h]
  exact decode_unit hu

/-- An instruction comes from the decoder as one operation. -/
theorem OpInfo.Sends.lastUop {info : OpInfo} {rev : Fetch2DecodePack}
    (h : info.Sends (decode rev)) : info.lastUop = true := by
  rw [show info.lastUop = (decode rev).lastUop from congrArg (·.lastUop) h]
  rfl

variable {w : World} {cin : CycleInput} {r : CycleResult} {g : Ghost}

/-- **A cycle keeps the entries traced.** -/
theorem traced_step (hw : w.Holds g₀) (hl : cin.Legal w) (h : w.core.cycle cin = some r)
    (hnext : (w.act r).Holds g) (ht : ∀ f ∈ w.flight, f.Traced w.core)
    (hcsr : ∀ rev ∈ cin.commit.executeCommitPort, rev.enable = true →
      ∃ f ∈ w.flight, f.info.robId = rev.robId ∧ UnitResult f.info rev) :
    ∀ f ∈ (w.act r).flight, f.Traced (w.act r).core := by
  intro f hf
  cases cycle_survives hw hl h hnext f hf with
  | kept hmem _ hcell =>
    have hold := ht f hmem
    rw [show (w.act r).core = r.next from rfl]
    refine ⟨?_, hold.valid⟩
    · rw [hcell]
      rcases w.core.merged_cases cin.commit.executeCommitPort f.info.robId.id with
        hm | ⟨rev, hrev, hen, hslot, hm⟩
      · rw [hm]
        exact hold.csr
      · rw [hm]
        intro hv
        obtain ⟨f', hf', hid, hres⟩ := hcsr rev hrev hen
        have hff : f' = f := List.inj_on_of_nodup_map hw.slots_nodup hf' hmem (by
          rw [hid]
          exact hslot)
        rw [← hff]
        exact hres.csr_unit hv
  | renamed t htm hinfo _ =>
    have hcell := cycle_recorded hw hl h hnext htm
    obtain ⟨s, -, hren⟩ := (Core.cycle_eq_some h).execute
    have hen := fun p hp => (hl.shaped p hp).enable
    -- the entry a turn writes, and the instruction it takes
    have hturns := (renameRun_turns hren).each (I := fun _ => True)
      (Q := fun t => (t.2.rob.buffer t.1.robId.id).csrNewvalueValid = false)
      (fun s info s' rev hrev _ hop => by
        obtain ⟨-, before, after, old, new, hbuf⟩ := renameOp_item hrev hop
        refine ⟨trivial, ?_⟩
        dsimp only
        rw [hbuf, Function.update_self]
        rfl) hen trivial
    have hno := hturns.2 t htm
    obtain ⟨rev, -, hsend⟩ := turn_decoded hl h htm
    rw [show (w.act r).core = r.next from rfl]
    rw [← hinfo] at hcell hno
    refine ⟨?_, ?_⟩
    · rw [hcell, hno]
      intro hv
      cases hv
    · rw [hinfo]
      exact hsend.unit_valid

namespace Pipe

variable {p : Pipe} {sent : List OpInfo} {entered : Bool → List OpInfo}

theorem traced_run (h : Run (fun p inp _ => inp.Computed p) p) :
    ∀ f ∈ p.world.flight, f.Traced p.world.core := by
  induction h with
  | init => simp [Pipe.init, World.init]
  | @cycle p inp r d hrun hc hP ih =>
    obtain ⟨g₀, hw⟩ := hrun.world.holds
    obtain ⟨g, hw'⟩ := (Run.cycle inp r d hrun hc hP).world.holds
    exact traced_step hw hc.legal.cycle hc.core hw' ih hP

/-- **What retires in one cycle** was sent out by dispatch, and a CSR instruction is the last that
was. -/
theorem Places.csrLast (hp : p.Places sent entered) (hs : p.Serial sent)
    (ht : ∀ f ∈ p.world.flight, f.Traced p.world.core) :
    p.world.core.CsrLast p.world.flight := by
  intro k hk hfin f hf
  obtain ⟨hlen, -⟩ := hp.retired hk hfin
  rw [Bool.eq_false_iff]
  intro hv
  obtain ⟨j, hj, rfl⟩ := List.mem_take_iff_getElem.mp hf
  have hmem : p.world.flight[j] ∈ p.world.flight := List.getElem_mem _
  have hunit := (ht _ hmem).csr hv
  have hwaits : (p.world.flight[j]).info.waits = true := by
    have hval := (ht _ hmem).valid (by rw [hunit]; decide)
    rw [DecodeRenamePack.waits, hval, hunit]
    rfl
  have hjs : j < sent.length := by omega
  have hget : sent[j] = (p.world.flight[j]).info := by
    have hinfo : p.infos[j]? = some (p.world.flight[j]).info := by
      rw [infos, List.getElem?_map, List.getElem?_eq_getElem, Option.map_some]
    rw [hp.flight, List.getElem?_append_left hjs, List.getElem?_eq_getElem hjs] at hinfo
    exact Option.some.inj hinfo
  have hsplit : sent = sent.take j ++ sent[j] :: sent.drop (j + 1) := by
    rw [← List.drop_eq_getElem_cons hjs, List.take_append_drop]
  obtain ⟨hnil, -⟩ := hs _ _ _ hsplit (by rw [hget]; exact hwaits)
  have := congrArg List.length hnil
  rw [List.length_drop, List.length_nil] at this
  omega

/-- **Wide commit equals sequential commit.** In a run whose results come from the units, a cycle of
`commit::run` that handles instructions with no interrupt pending leaves every component as cycles
that handle one of them each; only the flag that says whether something was committed in *this*
cycle collects what those cycles said. -/
theorem wide_eq_sequential (h : Run (fun p inp _ => inp.Computed p) p) {inp : CommitInput}
    {st : CommitState} (hint : inp.lines.getCause p.world.core.csrFile = none)
    (hst : p.world.core.commitCycle commitWidth inp = some st)
    (hdone : st.retireQueue ≠ [] ∨ st.needFlush = true) :
    ∃ sts last, OneByOne inp p.world.core sts ∧ sts.length ≤ commitWidth
      ∧ sts.getLast? = some last
      ∧ st.new = { last.new with committed := sts.any fun sq => sq.new.committed }
      ∧ st.retireQueue = sts.flatMap CommitState.retireQueue
      ∧ st.needFlush = last.needFlush := by
  obtain ⟨sent, entered, hp, hs⟩ := h.places
  obtain ⟨g, hw⟩ := h.world.holds
  have hlast : p.world.core.CsrLast g.flight := by
    rw [hw.flight]
    exact hp.csrLast hs (traced_run h)
  obtain ⟨sts, hones, hle, last, hl, hnew, hqueue, hflush⟩ :=
    commitCycle_oneByOne (n := 3) hw.inv hlast hint hst hdone
  exact ⟨sts, last, hones, hle, hl, hnew, hqueue, hflush⟩

theorem computes_computed (p : Pipe) : (computes p).Computed p := by
  intro rev hrev _
  obtain ⟨f, hf, rfl⟩ := List.mem_map.mp hrev
  obtain ⟨hmem, hc⟩ := List.mem_filter.mp hf
  simp only [Bool.and_eq_true, beq_iff_eq] at hc
  exact ⟨f, hmem, (resultOf_alu f.info).robId.symm, .alu _ hc.1.2⟩

/-- `addi x1, x0, 5`, `addi x1, x1, 1` and an instruction that does not exist. -/
def addTwiceThenFault : List Fetch2DecodePack :=
  [plainPack 0x80000000 0x00500093, plainPack 0x80000004 0x00108093, plainPack 0x80000008 0]

/-- The run that fetches, issues and computes them. -/
def addTwiceThenFaultRun : List (Pipe → PipeInput) :=
  [fetches addTwiceThenFault, fetches [], fetches [], issues, computes]

/-- The state in which all three are finished. -/
def threeFinished : Pipe := (Pipe.play addTwiceThenFaultRun Pipe.init).getD Pipe.init

theorem threeFinished_run : Run (fun p inp _ => inp.Computed p) threeFinished := by
  have hnone : ∀ p : Pipe, ∀ inp : PipeInput, inp.cycle.commit.executeCommitPort = [] →
      inp.Computed p := by
    intro p inp h rev hrev
    rw [h] at hrev
    cases hrev
  have hpacks : ∀ q ∈ addTwiceThenFault, q.FetchOk := by
    intro q hq
    simp only [addTwiceThenFault, List.mem_cons, List.not_mem_nil, or_false] at hq
    rcases hq with rfl | rfl | rfl <;> exact plainPack_ok ..
  obtain ⟨p, hp⟩ : ∃ p, Pipe.play addTwiceThenFaultRun Pipe.init = some p :=
    Option.isSome_iff_exists.mp (by decide +kernel)
  rw [threeFinished, hp, Option.getD_some]
  refine Run.play _ ?_ .init hp
  intro inp hinp p
  simp only [addTwiceThenFaultRun, List.mem_cons, List.not_mem_nil, or_false] at hinp
  rcases hinp with rfl | rfl | rfl | rfl | rfl
  · exact ⟨fetches_legal hpacks p, fun _ => hnone p _ rfl⟩
  · exact ⟨fetches_legal (by simp) p, fun _ => hnone p _ rfl⟩
  · exact ⟨fetches_legal (by simp) p, fun _ => hnone p _ rfl⟩
  · exact ⟨issues_legal p, fun _ => hnone p _ rfl⟩
  · exact ⟨computes_legal p, fun _ => computes_computed p⟩

theorem wide_eq_sequential_threeFinished : ∃ st sts last,
    threeFinished.world.core.commitCycle commitWidth {} = some st
      ∧ (st.retireQueue.length = 3 ∧ st.needFlush = true)
      ∧ OneByOne {} threeFinished.world.core sts ∧ sts.length ≤ commitWidth
      ∧ sts.getLast? = some last
      ∧ st.new = { last.new with committed := sts.any fun sq => sq.new.committed }
      ∧ st.retireQueue = sts.flatMap CommitState.retireQueue
      ∧ st.needFlush = last.needFlush := by
  obtain ⟨st, hst⟩ : ∃ st, threeFinished.world.core.commitCycle commitWidth {} = some st :=
    Option.isSome_iff_exists.mp (by decide +kernel)
  have hwhat : (threeFinished.world.core.commitCycle commitWidth {}).map
      (fun st => (st.retireQueue.length, st.needFlush)) = some (3, true) := by decide +kernel
  rw [hst, Option.map_some, Option.some.injEq, Prod.mk.injEq] at hwhat
  have hquiet : ({} : CommitInput).lines.getCause threeFinished.world.core.csrFile = none := by
    decide +kernel
  obtain ⟨sts, last, h⟩ := wide_eq_sequential threeFinished_run hquiet hst (.inr hwhat.2)
  exact ⟨st, sts, last, hst, hwhat, h⟩

end Pipe

end DreamCore
