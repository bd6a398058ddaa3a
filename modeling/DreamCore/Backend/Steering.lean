import DreamCore.Backend.DeviceWrite
import DreamCore.Backend.Training

/-!
# Where commit sends fetch

Commit tells fetch to go somewhere else in five cases: it takes an exception or an
interrupt, sends a load back, finds a prediction wrong that nothing has corrected, or
retires the jump fetch is waiting for. In every other cycle fetch goes on as it does,
and then each branch that has retired went where it was predicted to go, or had a
checkpoint the branch unit could go back to.

What has retired is a prefix of the window in each case, and what is looked at behind
it decides which of them it is.
-/

namespace DreamCore

open Ring

/-- The entry of an instruction in flight. -/
def Core.entry (cur : Core) (f : Flight) : RobItem := cur.rob.buffer f.info.robId.id

/-- Where the handler of a trap finds `pc` saved. -/
def savedPc (pc : Word) : Word := csrFilter csrMepc pc

/-- A branch that retires without another word to fetch. -/
def RobItem.settled (item : RobItem) : Bool :=
  !item.bruOp || (item.branchPredictorInfoPack.predicted
    && (item.hit || item.branchPredictorInfoPack.checkpointIdValid))

/-- Exactly the instructions `l` have retired, and they were finished. -/
structure CommitState.Retires (c : CommitState) (cur : Core) (l : List Flight) : Prop where
  retired : c.retired = l.map fun f => (f.info.robId.id, cur.entry f)
  finished : ∀ f ∈ l, (cur.entry f).finish = true

/-- Commit has flushed, and fetch is to go on at `pc`. -/
structure CommitState.Returns (c : CommitState) (pc : Word) : Prop where
  flush : c.feedback.flush = true
  hasException : c.feedback.hasException = false
  jumpEnable : c.feedback.jumpEnable = true
  jump : c.feedback.jump = true
  jumpNextPc : c.feedback.jumpNextPc = pc

/-- Commit has flushed for the handler of a trap, and has saved `pc` for it. -/
structure CommitState.Traps (c : CommitState) (cur : Core) (pc : Word) : Prop where
  flush : c.feedback.flush = true
  hasException : c.feedback.hasException = true
  exceptionPc : c.feedback.exceptionPc = cur.csrFile.readSys csrMtvec
  mepc : c.new.csrFile.readSys csrMepc = savedPc pc

/-- **What a run of commit makes of the instructions in flight `fl`, and where it sends fetch.** -/
inductive Steers (cur : Core) (fifo : List DecodeRenamePack) (fl : List Flight) (c : CommitState) :
    Prop where
  | onward (l l' : List Flight) : fl = l ++ l' → c.Retires cur l → c.feedback.flush = false →
      c.feedback.hasException = false → c.feedback.jumpEnable = false →
      (∀ f ∈ l, (cur.entry f).settled = true) → Steers cur fifo fl c
  /-- The jump that was not predicted. -/
  | jumped (l : List Flight) (f : Flight) (l' : List Flight) : fl = l ++ f :: l' →
      c.Retires cur (l ++ [f]) → c.feedback.flush = false → c.feedback.hasException = false →
      (∀ i ∈ l, (cur.entry i).bruOp = false) → (cur.entry f).bruOp = true →
      (cur.entry f).branchPredictorInfoPack.predicted = false → c.feedback.jumpEnable = true →
      c.feedback.jump = (cur.entry f).bruJump →
      c.feedback.jumpNextPc
        = (if (cur.entry f).bruJump then (cur.entry f).bruNextPc else (cur.entry f).pc + 4) →
      Steers cur fifo fl c
  /-- The branch that was predicted wrongly. -/
  | late (l : List Flight) (f : Flight) (l' : List Flight) : fl = l ++ f :: l' →
      c.Retires cur (l ++ [f]) → (∀ i ∈ l, (cur.entry i).bruOp = false) →
      (cur.entry f).bruOp = true → c.Returns (cur.entry f).bruNextPc → Steers cur fifo fl c
  /-- The load a store has overtaken. -/
  | conflict (l : List Flight) (f : Flight) (l' : List Flight) : fl = l ++ f :: l' →
      c.Retires cur l → (∀ i ∈ l, (cur.entry i).bruOp = false) → c.Returns (cur.entry f).pc →
      Steers cur fifo fl c
  | exception (l : List Flight) (f : Flight) (l' : List Flight) : fl = l ++ f :: l' →
      c.Retires cur l → (∀ i ∈ l, (cur.entry i).bruOp = false) →
      c.Traps cur (cur.entry f).pc → Steers cur fifo fl c
  /-- Nothing is in flight, and the interrupt is taken in front of what rename has not seen. -/
  | interrupt (p : DecodeRenamePack) (rest : List DecodeRenamePack) : fl = [] → fifo = p :: rest →
      c.Retires cur [] → c.Traps cur p.pc → Steers cur fifo fl c

variable {cur : Core} {st st' : CommitState} {writeAck : Option BusErrno} {id : Nat}
  {item : RobItem} {go : Bool}

/-! ## One turn -/

/-- What fetch looks at is as it was. -/
structure CommitState.SameSteer (st st' : CommitState) : Prop where
  flush : st'.feedback.flush = st.feedback.flush
  hasException : st'.feedback.hasException = st.feedback.hasException
  jumpEnable : st'.feedback.jumpEnable = st.feedback.jumpEnable

theorem CommitState.SameSteer.trans {st₁ : CommitState} (h : st.SameSteer st₁)
    (h' : st₁.SameSteer st') : st.SameSteer st' :=
  ⟨h'.flush.trans h.flush, h'.hasException.trans h.hasException, h'.jumpEnable.trans h.jumpEnable⟩

/-- **What a turn of the loop comes to** for the finished entry `item` in front, and whether the
loop goes on. -/
inductive TurnSteers (cur : Core) (id : Nat) (item : RobItem) (st st' : CommitState) :
    Bool → Prop where
  | stays : st.SameSteer st' → st'.retireQueue = st.retireQueue →
      TurnSteers cur id item st st' false
  | settled (go : Bool) : st.SameSteer st' → st'.retireQueue = st.retireQueue ++ [(id, item)] →
      item.settled = true → (go = true → item.bruOp = false) → TurnSteers cur id item st st' go
  | jumped : st'.feedback.flush = st.feedback.flush →
      st'.feedback.hasException = st.feedback.hasException →
      st'.retireQueue = st.retireQueue ++ [(id, item)] → item.bruOp = true →
      item.branchPredictorInfoPack.predicted = false → st'.feedback.jumpEnable = true →
      st'.feedback.jump = item.bruJump →
      st'.feedback.jumpNextPc = (if item.bruJump then item.bruNextPc else item.pc + 4) →
      TurnSteers cur id item st st' false
  | late : st'.retireQueue = st.retireQueue ++ [(id, item)] → item.bruOp = true →
      st'.Returns item.bruNextPc → TurnSteers cur id item st st' false
  | conflict : st'.retireQueue = st.retireQueue → st'.Returns item.pc →
      TurnSteers cur id item st st' false
  | exception : st'.retireQueue = st.retireQueue ++ [(id, item)] → st'.Traps cur item.pc →
      TurnSteers cur id item st st' false

/-- What comes in front of a turn, and leaves no trace. -/
theorem TurnSteers.behind {st₁ : CommitState} (h : TurnSteers cur id item st₁ st' go)
    (hsame : st.SameSteer st₁) (hq : st₁.retireQueue = st.retireQueue) :
    TurnSteers cur id item st st' go := by
  cases h with
  | stays h₁ h₂ => exact .stays (hsame.trans h₁) (h₂.trans hq)
  | settled _ h₁ h₂ h₃ h₄ => exact .settled _ (hsame.trans h₁) (hq ▸ h₂) h₃ h₄
  | jumped h₁ h₂ h₃ h₄ h₅ h₆ h₇ h₈ =>
    exact .jumped (h₁.trans hsame.flush) (h₂.trans hsame.hasException) (hq ▸ h₃) h₄ h₅ h₆ h₇ h₈
  | late h₁ h₂ h₃ => exact .late (hq ▸ h₁) h₂ h₃
  | conflict h₁ h₂ => exact .conflict (h₁.trans hq) h₂
  | exception h₁ h₂ => exact .exception (hq ▸ h₁) h₂

theorem commitException_traps {e : RiscvException} {v : Word}
    (h : commitException cur id item e v st = some st') :
    st'.retireQueue = st.retireQueue ++ [(id, item)] ∧ st'.Traps cur item.pc := by
  simp only [commitException, Option.bind_eq_bind, Option.bind_eq_some_iff] at h
  obtain ⟨s, -, h⟩ := h
  cases h
  refine ⟨rfl, rfl, rfl, rfl, ?_⟩
  -- the two writes behind the one of `mepc` are to other registers
  simp only [CsrFile.writeSys, CsrFile.readSys]
  rw [Function.update_of_ne (by decide), Function.update_of_ne (by decide), Function.update_self]
  rfl

/-- The load handle sends the load back, or changes nothing fetch looks at. -/
theorem commitLoad_steers (id : Nat) (hex : st.feedback.hasException = false)
    (h : commitLoad cur item st = some (st', go)) :
    (go = true ∧ st.SameSteer st' ∧ st'.retireQueue = st.retireQueue)
      ∨ (go = false ∧ TurnSteers cur id item st st' false) := by
  unfold commitLoad at h
  split at h
  · cases h
    exact .inl ⟨rfl, ⟨rfl, rfl, rfl⟩, rfl⟩
  · split at h
    · simp only [Option.bind_eq_bind, Option.bind_eq_some_iff] at h
      obtain ⟨s, -, h⟩ := h
      cases h
      exact .inr ⟨rfl, .conflict rfl ⟨rfl, hex, rfl, rfl, rfl⟩⟩
    · cases h
      exact .inl ⟨rfl, ⟨rfl, rfl, rfl⟩, rfl⟩

/-- The store handle takes an exception, stays, or goes on. -/
theorem commitStore_steers (h : commitStore cur writeAck id item st = some (st', go)) :
    (go = true ∧ st.SameSteer st' ∧ st'.retireQueue = st.retireQueue)
      ∨ (go = false ∧ TurnSteers cur id item st st' false) := by
  unfold commitStore at h
  split at h
  · cases h
    exact .inl ⟨rfl, ⟨rfl, rfl, rfl⟩, rfl⟩
  · simp only [Option.bind_eq_bind, Option.bind_eq_some_iff] at h
    obtain ⟨tItem, -, addr, -, size, -, -, -, h⟩ := h
    split at h
    · split at h
      · cases h
        exact .inr ⟨rfl, .stays ⟨rfl, rfl, rfl⟩ rfl⟩
      · split at h
        · rw [Option.bind_eq_some_iff] at h
          obtain ⟨st₁, h₁, h⟩ := h
          cases h
          obtain ⟨hq, ht⟩ := commitException_traps h₁
          exact .inr ⟨rfl, .exception hq ht⟩
        · cases h
          exact .inl ⟨rfl, ⟨rfl, rfl, rfl⟩, rfl⟩
    · split at h
      · rw [Option.bind_eq_some_iff] at h
        obtain ⟨ring, -, h⟩ := h
        cases h
        exact .inl ⟨rfl, ⟨rfl, rfl, rfl⟩, rfl⟩
      · cases h
        exact .inr ⟨rfl, .stays ⟨rfl, rfl, rfl⟩ rfl⟩

/-- **The branch handle**, for a branch `st₀` has just retired. -/
theorem commitBranch_steers {st₀ : CommitState} (hsame : st₀.SameSteer st)
    (hq : st.retireQueue = st₀.retireQueue ++ [(id, item)])
    (hex : st.feedback.hasException = false) (h : commitBranch cur item st = some (st', go)) :
    TurnSteers cur id item st₀ st' go := by
  have hmret : (commitMret cur item st).feedback = st.feedback
      ∧ (commitMret cur item st).retireQueue = st.retireQueue := by
    unfold commitMret
    split
    · exact ⟨rfl, rfl⟩
    · exact ⟨rfl, rfl⟩
  unfold commitBranch at h
  split at h
  · rename_i hb
    rw [Bool.not_eq_true'] at hb
    cases h
    refine .settled _ hsame hq ?_ fun _ => hb
    rw [RobItem.settled, hb]
    rfl
  · rename_i hb
    rw [Bool.not_eq_true', Bool.not_eq_false] at hb
    split at h
    · rename_i hp
      obtain ⟨st₁, h₁, h⟩ := Option.map_eq_some_iff.mp h
      cases h
      have hkept : ∀ hit, (item.hit || item.branchPredictorInfoPack.checkpointIdValid) = true →
          TurnSteers cur id item st₀ (popCheckpoint cur item.branchPredictorInfoPack
            (addUpdate item hit (commitMret cur item st))) false := by
        intro hit hs
        have hfb : (popCheckpoint cur item.branchPredictorInfoPack
            (addUpdate item hit (commitMret cur item st))).feedback = st.feedback := hmret.1
        refine .settled false ⟨?_, ?_, ?_⟩ (hmret.2.trans hq) ?_ fun hg => by cases hg
        · rw [hfb, hsame.flush]
        · rw [hfb, hsame.hasException]
        · rw [hfb, hsame.jumpEnable]
        · rw [RobItem.settled, hb, hp, hs]
          rfl
      unfold commitPredicted at h₁
      dsimp only at h₁
      split at h₁
      · rename_i hhit
        cases h₁
        refine hkept true ?_
        rw [RobItem.hit, hhit.1, hhit.2]
        simp
      · split at h₁
        · cases h₁
        · split at h₁
          · rename_i hck
            cases h₁
            refine hkept false ?_
            rw [hck, Bool.or_true]
          · simp only [commitMispredict, Option.bind_eq_bind, Option.bind_eq_some_iff] at h₁
            obtain ⟨s, -, h₁⟩ := h₁
            cases h₁
            refine .late (hmret.2.trans hq) hb ⟨rfl, ?_, rfl, rfl, rfl⟩
            show (commitMret cur item st).feedback.hasException = false
            rw [hmret.1, hex]
    · rename_i hp
      cases h
      refine .jumped ?_ ?_ (hmret.2.trans hq) hb (Bool.eq_false_of_not_eq_true hp) rfl rfl rfl
      · show (commitMret cur item st).feedback.flush = _
        rw [hmret.1, hsame.flush]
      · show (commitMret cur item st).feedback.hasException = _
        rw [hmret.1, hsame.hasException]

/-- **One finished entry.** -/
theorem commitFinished_steers {i : Nat} (hex : st.feedback.hasException = false)
    (h : commitFinished cur writeAck i id item st = some (st', go)) :
    TurnSteers cur id item st st' go := by
  unfold commitFinished at h
  split at h
  · obtain ⟨st₁, h₁, h⟩ := Option.map_eq_some_iff.mp h
    cases h
    obtain ⟨hq, ht⟩ := commitException_traps h₁
    exact .exception hq ht
  · obtain ⟨blocked, -, h⟩ := Option.bind_eq_some_iff.mp h
    split at h
    · cases h
      exact .stays ⟨rfl, rfl, rfl⟩ rfl
    · rcases andThen_eq_some h with ⟨st₁, h₁, h⟩ | ⟨h₁, hgo⟩
      · rcases commitLoad_steers id hex h₁ with ⟨-, hsame₁, hq₁⟩ | ⟨hgo, -⟩
        · rcases andThen_eq_some h with ⟨st₂, h₂, h⟩ | ⟨h₂, hgo⟩
          · rcases commitStore_steers h₂ with ⟨-, hsame₂, hq₂⟩ | ⟨hgo, -⟩
            · obtain ⟨st₃, h₃, h₄⟩ := Option.bind_eq_some_iff.mp h
              obtain ⟨hfb, -, hq₃, -⟩ := commitRetire_eq_some h₃
              have hsame : st.SameSteer st₃ :=
                (hsame₁.trans hsame₂).trans ⟨by rw [hfb], by rw [hfb], by rw [hfb]⟩
              refine commitBranch_steers hsame ?_ (hsame.hasException.trans hex) h₄
              rw [hq₃, hq₂, hq₁]
            · cases hgo
          · dsimp only at hgo
            subst hgo
            rcases commitStore_steers h₂ with ⟨hg, -⟩ | ⟨-, hsteer⟩
            · cases hg
            · exact hsteer.behind hsame₁ hq₁
        · cases hgo
      · dsimp only at hgo
        subst hgo
        rcases commitLoad_steers id hex h₁ with ⟨hg, -⟩ | ⟨-, hsteer⟩
        · cases hg
        · exact hsteer

/-! ## The loop -/

variable {g₀ : Ghost} {k : Nat}

/-- The loop has met no branch, and has sent fetch nowhere. -/
structure Straight (cur : Core) (l : List Flight) (st : CommitState) : Prop where
  flush : st.feedback.flush = false
  hasException : st.feedback.hasException = false
  jumpEnable : st.feedback.jumpEnable = false
  plain : ∀ f ∈ l, (cur.entry f).bruOp = false
  queue : st.retireQueue = l.map fun f => (f.info.robId.id, cur.entry f)
  finished : ∀ f ∈ l, (cur.entry f).finish = true

/-- What has been logged has retired, unless the last entry took an exception. -/
theorem CommitState.retires_of_queue {l : List Flight} (hex : st.feedback.hasException = false)
    (hq : st.retireQueue = l.map fun f => (f.info.robId.id, cur.entry f))
    (hfin : ∀ f ∈ l, (cur.entry f).finish = true) : st.Retires cur l := by
  refine ⟨?_, hfin⟩
  rw [CommitState.retired, hex]
  exact hq

/-- A straight loop that ends here leaves fetch alone. -/
theorem Straight.onward {l l' : List Flight} {fifo : List DecodeRenamePack}
    (hq : Straight cur l st) : Steers cur fifo (l ++ l') st := by
  refine .onward l l' rfl (CommitState.retires_of_queue hq.hasException hq.queue hq.finished)
    hq.flush hq.hasException hq.jumpEnable fun f hf => ?_
  rw [RobItem.settled, hq.plain f hf]
  rfl

/-- **The last turn of a straight loop** decides where fetch goes. -/
theorem Straight.ends {l l' : List Flight} {f : Flight} {fifo : List DecodeRenamePack}
    (hq : Straight cur l st) (hfin : (cur.entry f).finish = true)
    (ht : TurnSteers cur f.info.robId.id (cur.entry f) st st' go) :
    (go = false ∧ Steers cur fifo (l ++ f :: l') st')
      ∨ (go = true ∧ Straight cur (l ++ [f]) st') := by
  have hone : ∀ {c : CommitState}, c.retireQueue
      = st.retireQueue ++ [(f.info.robId.id, cur.entry f)] → c.retireQueue
        = (l ++ [f]).map fun f => (f.info.robId.id, cur.entry f) := by
    intro c hc
    rw [hc, hq.queue, List.map_append]
    rfl
  have hfins : ∀ i ∈ l ++ [f], (cur.entry i).finish = true := by
    intro i hi
    rcases List.mem_append.mp hi with hi | hi
    · exact hq.finished i hi
    · rw [List.mem_singleton.mp hi]
      exact hfin
  cases ht with
  | stays hsame hqueue =>
    exact .inl ⟨rfl, Straight.onward ⟨hsame.flush.trans hq.flush,
      hsame.hasException.trans hq.hasException, hsame.jumpEnable.trans hq.jumpEnable, hq.plain,
      hqueue.trans hq.queue, hq.finished⟩⟩
  | settled _ hsame hqueue hset hgo =>
    have hex := hsame.hasException.trans hq.hasException
    cases go with
    | false =>
      refine .inl ⟨rfl, .onward (l ++ [f]) l' (by rw [List.append_assoc]; rfl)
        (CommitState.retires_of_queue hex (hone hqueue) hfins) (hsame.flush.trans hq.flush) hex
        (hsame.jumpEnable.trans hq.jumpEnable) fun i hi => ?_⟩
      rcases List.mem_append.mp hi with hi | hi
      · rw [RobItem.settled, hq.plain i hi]
        rfl
      · rw [List.mem_singleton.mp hi]
        exact hset
    | true =>
      refine .inr ⟨rfl, hsame.flush.trans hq.flush, hex, hsame.jumpEnable.trans hq.jumpEnable,
        fun i hi => ?_, hone hqueue, hfins⟩
      rcases List.mem_append.mp hi with hi | hi
      · exact hq.plain i hi
      · rw [List.mem_singleton.mp hi]
        exact hgo rfl
  | jumped hfl hex hqueue hb hp hen hj hpc =>
    have hex := hex.trans hq.hasException
    exact .inl ⟨rfl, .jumped l f l' rfl (CommitState.retires_of_queue hex (hone hqueue) hfins)
      (hfl.trans hq.flush) hex hq.plain hb hp hen hj hpc⟩
  | late hqueue hb hret =>
    exact .inl ⟨rfl, .late l f l' rfl
      (CommitState.retires_of_queue hret.hasException (hone hqueue) hfins) hq.plain hb hret⟩
  | conflict hqueue hret =>
    exact .inl ⟨rfl, .conflict l f l' rfl (CommitState.retires_of_queue hret.hasException
      (hqueue.trans hq.queue) hq.finished) hq.plain hret⟩
  | exception hqueue htrap =>
    refine .inl ⟨rfl, .exception l f l' rfl ⟨?_, hq.finished⟩ hq.plain htrap⟩
    rw [CommitState.retired, htrap.hasException, hqueue, hq.queue]
    exact List.dropLast_concat

/-- **What the loop comes to.** -/
theorem commitLoop_steers {firstId n : Nat} (fifo : List DecodeRenamePack)
    (hc : Committing cur g₀ k st) (hq : Straight cur (g₀.flight.take k) st)
    (h : commitLoop cur writeAck firstId n k st = some st') : Steers cur fifo g₀.flight st' := by
  induction n generalizing k st with
  | zero =>
    cases h
    rw [← List.take_append_drop k g₀.flight]
    exact hq.onward
  | succ n ih =>
    obtain ⟨⟨st₁, go⟩, h₁, h₂⟩ := Option.bind_eq_some_iff.mp h
    have hturn := commitOne_turn (fun id hid hfin => hc.plainLoad hid hfin) h₁
    have hidle : st₁ = st ∧ go = false → Steers cur fifo g₀.flight st' := by
      rintro ⟨rfl, rfl⟩
      cases h₂
      rw [← List.take_append_drop k g₀.flight]
      exact hq.onward
    unfold commitOne at h₁
    cases hid : Fifo.customerGetFrontId cur.rob st.new.rob with
    | none =>
      rw [hid] at h₁
      cases h₁
      exact hidle ⟨rfl, rfl⟩
    | some id =>
      rw [hid] at h₁
      dsimp only [Fifo.customerGetItem] at h₁
      split at h₁
      · cases h₁
        exact hidle ⟨rfl, rfl⟩
      · rename_i hfin
        rw [Bool.not_eq_true', Bool.not_eq_false] at hfin
        obtain ⟨⟨next, v⟩, -, h₁⟩ := Option.bind_eq_some_iff.mp h₁
        obtain ⟨-, f, rest, hf, hfid, -, -⟩ := hc.front hid
        rw [Ghost.retireN_flight] at hf
        have hsplit : g₀.flight = g₀.flight.take k ++ f :: rest := by
          rw [← hf, List.take_append_drop]
        have htake : g₀.flight.take (k + 1) = g₀.flight.take k ++ [f] := by
          rw [List.take_add_one, ← List.head?_drop, hf]
          rfl
        subst hfid
        have hsteer : TurnSteers cur f.info.robId.id (cur.entry f) st st₁ go :=
          (commitFinished_steers (by exact hq.hasException) h₁).behind ⟨rfl, rfl, rfl⟩ rfl
        rcases hq.ends hfin hsteer with ⟨rfl, hdone⟩ | ⟨rfl, hq₁⟩
        · cases h₂
          rw [hsplit]
          exact hdone
        · rw [← htake] at hq₁
          rcases hc.turn true (fun _ _ _ _ _ => rfl) hturn with ⟨hc₁, -⟩ | ⟨hgo, -⟩
          · exact ih hc₁ hq₁ h₂
          · cases hgo

/-! ## A cycle -/

/-- **The interrupt block**: the interrupt is taken, or nothing happens yet. -/
theorem commitInterrupt_steers (cur new : Core) (inp : CommitInput) :
    (∃ w, commitInterrupt cur new inp
        = { new := new, feedback := { waitingForInterrupt := w } })
      ∨ ∃ p rest, inp.decodeRenameFifo = p :: rest ∧ (commitInterrupt cur new inp).retired = []
        ∧ (commitInterrupt cur new inp).Traps cur p.pc := by
  unfold commitInterrupt
  split
  · exact .inl ⟨false, rfl⟩
  · split
    · rename_i p rest _ hfifo
      refine .inr ⟨p, rest, hfifo, rfl, rfl, rfl, rfl, ?_⟩
      simp only [CsrFile.writeSys, CsrFile.readSys]
      rw [Function.update_of_ne (by decide), Function.update_of_ne (by decide),
        Function.update_of_ne (by decide), Function.update_self]
      rfl
    · exact .inl ⟨true, rfl⟩

/-- The results of the cycle change nothing of it. -/
theorem Steers.results {new : Core} {fifo : List DecodeRenamePack} {fl : List Flight}
    (h : Steers cur fifo fl st) (hcsr : new.csrFile = st.new.csrFile) :
    Steers cur fifo fl { st with new := new } := by
  have htraps : ∀ {pc}, st.Traps cur pc → CommitState.Traps { st with new := new } cur pc :=
    fun ht => ⟨ht.flush, ht.hasException, ht.exceptionPc, by rw [← ht.mepc, ← hcsr]⟩
  have hreturns : ∀ {pc}, st.Returns pc → CommitState.Returns { st with new := new } pc :=
    fun ht => ⟨ht.flush, ht.hasException, ht.jumpEnable, ht.jump, ht.jumpNextPc⟩
  have hretires : ∀ {l}, st.Retires cur l → CommitState.Retires { st with new := new } cur l :=
    fun ht => ⟨ht.retired, ht.finished⟩
  cases h with
  | onward l l' h₁ h₂ h₃ h₄ h₅ h₆ => exact .onward l l' h₁ (hretires h₂) h₃ h₄ h₅ h₆
  | jumped l f l' h₁ h₂ h₃ h₄ h₅ h₆ h₇ h₈ h₉ h₁₀ =>
    exact .jumped l f l' h₁ (hretires h₂) h₃ h₄ h₅ h₆ h₇ h₈ h₉ h₁₀
  | late l f l' h₁ h₂ h₃ h₄ h₅ => exact .late l f l' h₁ (hretires h₂) h₃ h₄ (hreturns h₅)
  | conflict l f l' h₁ h₂ h₃ h₄ => exact .conflict l f l' h₁ (hretires h₂) h₃ (hreturns h₄)
  | exception l f l' h₁ h₂ h₃ h₄ => exact .exception l f l' h₁ (hretires h₂) h₃ (htraps h₄)
  | interrupt p rest h₁ h₂ h₃ h₄ => exact .interrupt p rest h₁ h₂ (hretires h₃) (htraps h₄)

/-- **What a run of commit comes to.** -/
theorem commitRun_steers {new : Core} {inp : CommitInput} (hcur : Inv cur g₀)
    (hsame : cur.SameWindow new) (h : commitRun cur new inp = some st) :
    Steers cur inp.decodeRenameFifo g₀.flight st := by
  have hidle : ∀ st : CommitState, st.feedback.flush = false → st.feedback.hasException = false →
      st.feedback.jumpEnable = false → st.retireQueue = [] →
      Steers cur inp.decodeRenameFifo g₀.flight st := fun st h₁ h₂ h₃ h₄ =>
    Straight.onward (l := []) ⟨h₁, h₂, h₃, (by simp), h₄, (by simp)⟩
  unfold commitRun at h
  dsimp only at h
  rcases commitInterrupt_cases cur new inp with ⟨w, hint⟩ | ⟨he, hw, hfl, -⟩
  · rw [hint] at h
    split at h
    · cases h
      exact hidle _ rfl rfl rfl rfl
    · rename_i firstId hfront
      rw [Option.bind_eq_bind, Option.bind_eq_some_iff] at h
      obtain ⟨st', hloop, h⟩ := h
      have hc : Committing cur g₀ 0 { new := new, feedback :=
          { waitingForInterrupt := w, idle := false, nextHandleRobId := some firstId } } :=
        Committing.start hcur hsame rfl rfl
      have hsteers := commitLoop_steers inp.decodeRenameFifo hc
        ⟨rfl, rfl, rfl, by simp, rfl, by simp⟩ hloop
      split at h
      · cases h
        exact hsteers
      · cases h
        exact hsteers.results (foldl_commitInput_csrFile _ _ _)
  · have hfront : Fifo.customerGetFrontId cur.rob (commitInterrupt cur new inp).new.rob = none := by
      rw [front_none, Fifo.customerIsEmpty, hw.rob]
      exact he
    rw [hfront] at h
    cases h
    rcases commitInterrupt_steers cur new inp with ⟨w, hint⟩ | ⟨p, rest, hfifo, hret, htrap⟩
    · rw [hint] at hfl
      cases hfl
    · exact .interrupt p rest (hcur.flight_nil hsame he) hfifo ⟨hret, by simp⟩ htrap

/-- **What commit makes of a cycle.** -/
theorem cycle_steers {w : World} {inp : CycleInput} {r : CycleResult} {g : Ghost} (hw : w.Holds g)
    (h : w.core.cycle inp = some r) :
    Steers w.core inp.commit.decodeRenameFifo w.flight r.commit := by
  have hsteers := commitRun_steers hw.inv (early_sameWindow w.core inp)
    (Core.cycle_eq_some h).commit
  rwa [hw.flight] at hsteers

end DreamCore
