import DreamCore.Backend.Outcome

/-!
# The turns of rename

The loop of rename as a chain of turns, each from the components the previous
one left. What a turn writes stays until a later turn writes the same place, so
the components after the run still hold, for every turn, what that turn has
recorded.
-/

namespace DreamCore

open Ring

variable {cur s s' : Core} {i : Nat} {fence : Bool} {fifo : List DecodeRenamePack}
  {turns : List (OpInfo × Core)}

/-- `RenameTurns cur i fence s fifo turns s'`: from turn `i` on, in the state `s` and with
`found_fence` as given, the loop takes `turns` off `fifo` and ends in `s'`. -/
inductive RenameTurns (cur : Core) : Nat → Bool → Core → List DecodeRenamePack →
    List (OpInfo × Core) → Core → Prop where
  | stop (i : Nat) (fence : Bool) (s : Core) (fifo : List DecodeRenamePack) :
      RenameTurns cur i fence s fifo [] s
  | turn {i : Nat} {fence last fence' : Bool} {s s₁ s' : Core} {rev : DecodeRenamePack}
      {fifo : List DecodeRenamePack} {info : OpInfo} {rest : List (OpInfo × Core)} :
      renameGate cur s i fence rev = .take last fence' → renameOp cur s rev = some (info, s₁) →
      (last = true → rest = []) → RenameTurns cur (i + 1) fence' s₁ fifo rest s' →
      RenameTurns cur i fence s (rev :: fifo) ((info, s₁) :: rest) s'

theorem renameLoop_turns {n : Nat} (h : renameLoop cur n i fence s fifo = some turns) :
    RenameTurns cur i fence s fifo turns ((turns.getLast?.map Prod.snd).getD s) := by
  induction n generalizing i fence s fifo turns with
  | zero => cases h; exact .stop ..
  | succ n ih =>
    cases fifo with
    | nil => cases h; exact .stop ..
    | cons rev fifo =>
      unfold renameLoop at h
      split at h
      · cases h; exact .stop ..
      · split at h
        · cases h; exact .stop ..
        · rename_i last fence' hgate
          obtain ⟨⟨info, s₁⟩, ho, h⟩ := Option.bind_eq_some_iff.mp h
          cases last with
          | true =>
            cases h
            exact .turn hgate ho (fun _ => rfl) (.stop ..)
          | false =>
            simp only [Bool.false_eq_true, if_false] at h
            obtain ⟨rest, hrest, h⟩ := Option.bind_eq_some_iff.mp h
            cases h
            have hlast : ((((info, s₁) :: rest).getLast?.map Prod.snd).getD s)
                = (rest.getLast?.map Prod.snd).getD s₁ := by
              cases rest with
              | nil => rfl
              | cons t rest =>
                rw [List.getLast?_cons_cons]
                cases hx : (t :: rest).getLast? with
                | none => simp at hx
                | some x => rfl
            rw [hlast]
            exact .turn hgate ho (fun hc => by cases hc) (ih hrest)

/-- **Every run of rename is a chain of turns**, of no turn where it does not rename. -/
theorem renameRun_turns {stall flush waiting : Bool} {r : RenameResult}
    (h : renameRun cur s stall flush waiting fifo = some r) :
    RenameTurns cur 0 false s fifo r.turns r.new := by
  unfold renameRun at h
  split at h
  · cases h; exact .stop ..
  · split at h
    · cases h; exact .stop ..
    · split at h
      · cases h; exact .stop ..
      · obtain ⟨turns, ht, h⟩ := Option.bind_eq_some_iff.mp h
        cases h
        exact renameLoop_turns ht

theorem renameLoop_length {n : Nat} (h : renameLoop cur n i fence s fifo = some turns) :
    turns.length ≤ n := by
  induction n generalizing i fence s fifo turns with
  | zero =>
    cases h
    exact Nat.le_refl _
  | succ n ih =>
    cases fifo with
    | nil =>
      cases h
      exact Nat.zero_le _
    | cons rev fifo =>
      unfold renameLoop at h
      split at h
      · cases h
        exact Nat.zero_le _
      · split at h
        · cases h
          exact Nat.zero_le _
        · obtain ⟨⟨info, s₁⟩, -, h⟩ := Option.bind_eq_some_iff.mp h
          dsimp only at h
          split at h
          · cases h
            exact Nat.succ_le_succ (Nat.zero_le _)
          · obtain ⟨rest, hrest, h⟩ := Option.bind_eq_some_iff.mp h
            cases h
            exact Nat.succ_le_succ (ih hrest)

theorem renameRun_length {stall flush waiting : Bool} {r : RenameResult}
    (h : renameRun cur s stall flush waiting fifo = some r) :
    r.turns.length ≤ renameWidth := by
  unfold renameRun at h
  split at h
  · cases h
    exact Nat.zero_le _
  · split at h
    · cases h
      exact Nat.zero_le _
    · split at h
      · cases h
        exact Nat.zero_le _
      · obtain ⟨turns, ht, h⟩ := Option.bind_eq_some_iff.mp h
        cases h
        exact renameLoop_length ht

/-- **Rename never takes more than the cycle began with.** -/
theorem RenameTurns.behind {g₀ g : Ghost} (hcur : Inv cur g₀)
    (h : RenameTurns cur i fence s fifo turns s') (hs : Inv s g) (hb : Behind cur s g₀ g)
    (hfifo : ∀ p ∈ fifo, p.Shaped) :
    Behind cur s' g₀ { g with flight := g.flight ++ flights g.released.length turns } := by
  induction h generalizing g with
  | stop => simpa [flights] using hb
  | @turn i fence last fence' s s₁ s' rev fifo info rest _ ho _ _ ih =>
    obtain ⟨hs₁, hb₁⟩ := hcur.afterRename hs hb (hfifo _ (List.mem_cons_self ..)) ho
    have := ih hs₁ hb₁ fun p hp => hfifo p (List.mem_cons_of_mem _ hp)
    simpa [Ghost.push, flights, List.append_assoc] using this

/-! ## The pack of a group -/

variable {rev : DecodeRenamePack} {last fence' : Bool}

/-- **What the checks at the top of the loop let through.** -/
theorem renameGate_take (hrev : rev.Shaped) (h : renameGate cur s i fence rev = .take last fence') :
    (rev.waits = true → i = 0 ∧ last = true ∧ rev.opUnit.isLsu = false)
      ∧ (rev.isFence = true → last = false → fence' = true)
      ∧ (fence = true → fence' = true ∧ rev.opUnit.isLsu = false) := by
  unfold renameGate at h
  rw [hrev.enable, Bool.true_and] at h
  split at h
  · rename_i hv
    rw [Bool.and_eq_true] at hv
    split at h
    · rename_i hc
      have hunit : rev.opUnit.isLsu = false := by
        rcases hc with hu | hm
        · rw [hu]
          rfl
        · rw [hrev.mret hm hv.1]
          rfl
      split at h
      · rename_i hi
        cases h
        exact ⟨fun _ => ⟨hi, rfl, hunit⟩, (fun _ hl => by cases hl), fun hf => ⟨hf, hunit⟩⟩
      · cases h
    · rename_i hc
      have hno : rev.waits ≠ true := by
        rw [not_or] at hc
        simp [DecodeRenamePack.waits, hc.1, hc.2]
      split at h
      · rename_i hf
        cases h
        have hunit : rev.opUnit.isLsu = false := by
          rw [hrev.fence hf]
          rfl
        exact ⟨fun hw => absurd hw hno, fun _ _ => rfl, fun _ => ⟨rfl, hunit⟩⟩
      · rename_i hf
        have hnf : rev.isFence ≠ true := by simp [DecodeRenamePack.isFence, hf]
        split at h
        · cases h
        · rename_i hblock
          have hunit : fence = true → rev.opUnit.isLsu = false := by
            intro hfe
            rw [hfe, Bool.true_and] at hblock
            simpa using hblock
          split at h
          · cases h
          · split at h
            · cases h
            · cases h
              exact ⟨fun hw => absurd hw hno, fun hc => absurd hc hnf, fun hfe => ⟨hfe, hunit hfe⟩⟩
  · -- an instruction that is not valid goes to the ALU, whatever it was
    rename_i hv
    cases h
    have hunit : rev.opUnit.isLsu = false := by
      rw [Bool.eq_false_iff]
      intro hl
      obtain ⟨hval, hex⟩ := hrev.lsu hl
      exact hv (by simp [hval, hex])
    rw [Bool.not_eq_true] at hv
    refine ⟨fun hw => ?_, fun hf => ?_, fun hfe => ⟨hfe, hunit⟩⟩
    · simp [DecodeRenamePack.waits, hv] at hw
    · simp [DecodeRenamePack.isFence, hv] at hf

/-- **The pack of a group is in order**: an instruction that waits is alone, and no memory access
comes after a fence. -/
theorem RenameTurns.pack (hfifo : ∀ p ∈ fifo, p.Shaped)
    (h : RenameTurns cur i fence s fifo turns s') :
    PackOk (turns.map Prod.fst) ∧ (fence = true → ∀ t ∈ turns, t.1.opUnit.isLsu = false)
      ∧ (0 < i → ∀ t ∈ turns, t.1.waits = false) := by
  induction h with
  | stop => exact ⟨packOk_nil, by simp, by simp⟩
  | @turn i fence last fence' s s₁ s' rev fifo info rest hg ho hl hrest ih =>
    have hrev := hfifo _ (List.mem_cons_self ..)
    obtain ⟨hpack, hlsu, hwaits⟩ := ih fun p hp => hfifo p (List.mem_cons_of_mem _ hp)
    obtain ⟨hgw, hgf, hgl⟩ := renameGate_take hrev hg
    have hsend := (renameOp_rob hrev.enable ho).1
    have hen : info.enable = true := (congrArg (·.enable) hsend).trans hrev.enable
    have hunit : info.opUnit = rev.opUnit := congrArg (·.opUnit) hsend
    have hfence : info.isFence = rev.isFence := by
      rw [OpInfo.Sends] at hsend
      rw [hsend]
      rfl
    have hw := hsend.waits
    refine ⟨⟨?_, ?_, ?_⟩, fun hf t ht => ?_, fun hi t ht => ?_⟩
    · intro op hop
      rw [List.map_cons] at hop
      rcases List.mem_cons.mp hop with rfl | hop
      · exact hen
      · exact hpack.enable op hop
    · intro op hop hwop
      rw [List.map_cons] at hop ⊢
      rcases List.mem_cons.mp hop with rfl | hop
      · obtain ⟨-, hlast, hu⟩ := hgw (hw.symm.trans hwop)
        rw [hl hlast, hunit]
        exact ⟨rfl, hu⟩
      · obtain ⟨t, ht, rfl⟩ := List.mem_map.mp hop
        have := hwaits (Nat.succ_pos i) t ht
        rw [hwop] at this
        cases this
    · rw [List.map_cons, List.pairwise_cons]
      refine ⟨fun op hop hf => ?_, hpack.fenced⟩
      rw [hfence] at hf
      obtain ⟨t, ht, rfl⟩ := List.mem_map.mp hop
      cases last with
      | true =>
        rw [hl rfl] at ht
        cases ht
      | false => exact hlsu (hgf hf rfl) t ht
    · rcases List.mem_cons.mp ht with rfl | ht
      · rw [hunit]
        exact (hgl hf).2
      · exact hlsu (hgl hf).1 t ht
    · rcases List.mem_cons.mp ht with rfl | ht
      · rw [Bool.eq_false_iff, hw]
        intro hc
        have := (hgw hc).1
        omega
      · exact hwaits (Nat.succ_pos i) t ht

/-! ## Places a turn writes -/

variable {β : Type} {I : Core → Prop}

/-- A turn writes `cell` at `slot` of what it sends out, and nowhere else, where `I` holds, which
every turn keeps. -/
def TurnWrites (cur : Core) (I : Core → Prop) (cell : Core → Nat → β)
    (slot : OpInfo → Option Nat) : Prop :=
  ∀ s info s' rev, rev.enable = true → I s → renameOp cur s rev = some (info, s') →
    I s' ∧ ∀ k, slot info ≠ some k → cell s' k = cell s k

/-- **What no turn writes is as it was.** -/
theorem RenameTurns.kept {cell : Core → Nat → β} {slot : OpInfo → Option Nat}
    (hw : TurnWrites cur I cell slot) (hfifo : ∀ p ∈ fifo, p.enable = true)
    (h : RenameTurns cur i fence s fifo turns s') (hs : I s) {k : Nat}
    (hk : ∀ t ∈ turns, slot t.1 ≠ some k) : cell s' k = cell s k := by
  induction h with
  | stop => rfl
  | turn _ ho _ _ ih =>
    obtain ⟨hs₁, hone⟩ := hw _ _ _ _ (hfifo _ (List.mem_cons_self ..)) hs ho
    rw [ih (fun p hp => hfifo p (List.mem_cons_of_mem _ hp)) hs₁
      fun t ht => hk t (List.mem_cons_of_mem _ ht)]
    exact hone k (hk _ (List.mem_cons_self ..))

/-- **What a turn has written is still there** when no later one writes the same place. -/
theorem RenameTurns.recorded {cell : Core → Nat → β} {slot : OpInfo → Option Nat}
    (hw : TurnWrites cur I cell slot) (hfifo : ∀ p ∈ fifo, p.enable = true)
    (h : RenameTurns cur i fence s fifo turns s') (hs : I s)
    (hnd : (turns.filterMap fun t => slot t.1).Nodup) :
    ∀ t ∈ turns, ∀ k, slot t.1 = some k → cell s' k = cell t.2 k := by
  induction h with
  | stop =>
    intro t ht
    cases ht
  | @turn i fence last fence' s s₁ s' rev fifo info rest hg ho hl hrest ih =>
    have hfifo' : ∀ p ∈ fifo, p.enable = true :=
      fun p hp => hfifo p (List.mem_cons_of_mem _ hp)
    have hs₁ := (hw _ _ _ _ (hfifo _ (List.mem_cons_self ..)) hs ho).1
    intro t ht k hk
    rcases List.mem_cons.mp ht with rfl | ht
    · refine hrest.kept hw hfifo' hs₁ fun t' ht' hc => ?_
      have hcons : ((info, s₁) :: rest).filterMap (fun t => slot t.1)
          = k :: rest.filterMap fun t => slot t.1 := List.filterMap_cons_some hk
      rw [hcons, List.nodup_cons] at hnd
      exact hnd.1 (List.mem_filterMap.mpr ⟨t', ht', hc⟩)
    · refine ih hfifo' hs₁ ?_ t ht k hk
      rw [List.filterMap_cons] at hnd
      split at hnd
      · exact hnd
      · exact (List.nodup_cons.mp hnd).2

/-- A fact about the components that every turn keeps, and a fact about what a turn leaves. -/
theorem RenameTurns.each {Q : OpInfo × Core → Prop}
    (hstep : ∀ s info s' rev, rev.enable = true → I s → renameOp cur s rev = some (info, s') →
      I s' ∧ Q (info, s')) (hfifo : ∀ p ∈ fifo, p.enable = true)
    (h : RenameTurns cur i fence s fifo turns s') (hs : I s) : I s' ∧ ∀ t ∈ turns, Q t := by
  induction h with
  | stop => exact ⟨hs, fun t ht => by cases ht⟩
  | turn _ ho _ _ ih =>
    obtain ⟨hi, hq⟩ := hstep _ _ _ _ (hfifo _ (List.mem_cons_self ..)) hs ho
    obtain ⟨hi', hqs⟩ := ih (fun p hp => hfifo p (List.mem_cons_of_mem _ hp)) hi
    refine ⟨hi', fun t ht => ?_⟩
    rcases List.mem_cons.mp ht with rfl | ht
    · exact hq
    · exact hqs t ht

/-! ## What one turn does -/

variable {rev : DecodeRenamePack} {info : OpInfo}

/-- The entry of the store buffer an instruction is given, if any. -/
def OpInfo.storeSlot (info : OpInfo) : Option Nat :=
  if info.takesStoreBuffer then some info.storeBufferId else none

/-- **One turn and the store side.** A store is given the next entry, cleared but for the name of
its owner; no other instruction touches the store buffer. -/
structure StorePlaced (s s' : Core) (info : OpInfo) : Prop where
  retired : s'.retiredStoreBuffer = s.retiredStoreBuffer
  waiting : s'.isWaitingAck = s.isWaitingAck
  entry : (s'.rob.buffer info.robId.id).storeBufferId = info.storeBufferId
  other : info.takesStoreBuffer = false → s'.storeBuffer = s.storeBuffer
  slot : info.takesStoreBuffer = true → info.storeBufferId = s.storeBuffer.ring.wptr.id
    ∧ s'.storeBuffer.ring.wptr = s.storeBuffer.ring.wptr.next storeBufferSize
    ∧ s'.storeBuffer.ring.buffer
        = Function.update s.storeBuffer.ring.buffer info.storeBufferId { robId := info.robId }
    ∧ (∀ k, k ≠ info.storeBufferId → s'.storeBuffer.itemAddr k = s.storeBuffer.itemAddr k
        ∧ s'.storeBuffer.itemSize k = s.storeBuffer.itemSize k)

theorem renameMark_stores {q : Core} {info' : OpInfo}
    (h : renameMark cur s q info = some (info', s')) :
    s'.rob = q.rob ∧ s'.storeBuffer = q.storeBuffer
      ∧ s'.retiredStoreBuffer = q.retiredStoreBuffer ∧ s'.isWaitingAck = q.isWaitingAck
      ∧ info'.robId = info.robId ∧ info'.storeBufferId = info.storeBufferId
      ∧ info'.takesStoreBuffer = info.takesStoreBuffer := by
  unfold renameMark at h
  split at h
  · simp only [Option.bind_eq_bind, Option.bind_eq_some_iff] at h
    obtain ⟨_, -, _, -, h⟩ := h
    cases h
    exact ⟨rfl, rfl, rfl, rfl, rfl, rfl, rfl⟩
  · cases h
    exact ⟨rfl, rfl, rfl, rfl, rfl, rfl, rfl⟩

theorem renameDest_stores {m : Core} {oldPhyRegId rdPhy : Nat}
    (h : renameDest cur s rev = some (oldPhyRegId, rdPhy, m)) :
    m.rob = s.rob ∧ m.storeBuffer = s.storeBuffer
      ∧ m.retiredStoreBuffer = s.retiredStoreBuffer ∧ m.isWaitingAck = s.isWaitingAck := by
  unfold renameDest at h
  split at h
  · simp only [renameRd, Option.bind_eq_bind, Option.bind_eq_some_iff] at h
    obtain ⟨_, -, _, -, _, -, _, -, _, -, h⟩ := h
    cases h
    exact ⟨rfl, rfl, rfl, rfl⟩
  · cases h
    exact ⟨rfl, rfl, rfl, rfl⟩

/-- The tail of a ring right behind a push is the slot that was pushed to. -/
theorem Fifo.producerGetTailId_next {n : Nat} {α : Type} {cur new : Fifo n α} {p : Ptr} {id : Nat}
    (hp : p.id < n) (hw : new.wptr = p.next n)
    (h : Fifo.producerGetTailId cur new = some id) : id = p.id := by
  unfold Fifo.producerGetTailId at h
  split at h
  · cases h
  · rw [← Option.some.inj h, hw]
    unfold Ptr.next
    split
    · rename_i hwrap
      rw [Nat.mod_eq_of_lt (by dsimp only; omega)]
      dsimp only
      omega
    · dsimp only
      rw [show p.id + 1 + n - 1 = p.id + n by omega, Nat.add_mod_right,
        Nat.mod_eq_of_lt hp]

theorem renameQueue_stores {m q : Core} {robId : Ptr}
    (hid : m.storeBuffer.ring.wptr.id < storeBufferSize)
    (h : renameQueue cur m rev robId = some q) :
    q.rob = m.rob ∧ q.retiredStoreBuffer = m.retiredStoreBuffer ∧ q.isWaitingAck = m.isWaitingAck
      ∧ (rev.takesStoreBuffer = false → q.storeBuffer = m.storeBuffer)
      ∧ (rev.takesStoreBuffer = true →
        q.storeBuffer.ring.wptr = m.storeBuffer.ring.wptr.next storeBufferSize
        ∧ q.storeBuffer.ring.buffer = Function.update m.storeBuffer.ring.buffer
            m.storeBuffer.ring.wptr.id { robId := robId }
        ∧ ∀ k, k ≠ m.storeBuffer.ring.wptr.id → q.storeBuffer.itemAddr k = m.storeBuffer.itemAddr k
          ∧ q.storeBuffer.itemSize k = m.storeBuffer.itemSize k) := by
  unfold renameQueue at h
  unfold DecodeRenamePack.takesStoreBuffer
  split at h
  · rename_i hv
    rw [hv, Bool.true_and]
    split at h
    · rename_i hlu
      simp only [Option.bind_eq_bind, Option.bind_eq_some_iff] at h
      obtain ⟨_, -, h⟩ := h
      cases h
      rw [hlu]
      exact ⟨rfl, rfl, rfl, fun _ => rfl, fun hc => by cases hc⟩
    · split at h
      · rename_i hsdu
        simp only [Option.bind_eq_bind, Option.bind_eq_some_iff] at h
        obtain ⟨ring, hring, tailId, htail, h⟩ := h
        cases h
        obtain ⟨-, -, hwptr, hbuf⟩ := Fifo.push_eq_some hring
        have ht := Fifo.producerGetTailId_next hid hwptr htail
        rw [hsdu]
        refine ⟨rfl, rfl, rfl, ?_, fun _ => ⟨hwptr, hbuf, fun k hk => ?_⟩⟩
        · intro hc
          cases hc
        rw [ht]
        exact ⟨Function.update_of_ne hk .., Function.update_of_ne hk ..⟩
      · rename_i hsdu
        cases h
        exact ⟨rfl, rfl, rfl, fun _ => rfl, fun hc => absurd (by simpa using hc) hsdu⟩
  · rename_i hv
    cases h
    rw [Bool.not_eq_true] at hv
    rw [hv]
    exact ⟨rfl, rfl, rfl, fun _ => rfl, fun hc => by cases hc⟩

theorem renameOp_stores (hen : rev.enable = true)
    (hid : s.storeBuffer.ring.wptr.id < storeBufferSize)
    (h : renameOp cur s rev = some (info, s')) : StorePlaced s s' info := by
  unfold renameOp at h
  rw [hen] at h
  simp only [Bool.not_true, Bool.false_eq_true, if_false, Option.bind_eq_bind,
    Option.bind_eq_some_iff] at h
  obtain ⟨rs1Phy, -, rs2Phy, -, ⟨oldPhyRegId, rdPhy, m⟩, hd, p, hp, hm⟩ := h
  obtain ⟨hmrob, hmsb, hmrsb, hmw⟩ := renameDest_stores hd
  simp only [renamePush, Option.bind_eq_bind, Option.bind_eq_some_iff] at hp
  obtain ⟨-, -, q, hq, rob, hrob, hp⟩ := hp
  cases hp
  have hmid : m.storeBuffer.ring.wptr.id < storeBufferSize := by rw [hmsb]; exact hid
  obtain ⟨hqrob, hqrsb, hqw, hqother, hqslot⟩ := renameQueue_stores hmid hq
  obtain ⟨-, -, -, hbuf⟩ := Fifo.push_eq_some hrob
  obtain ⟨hsrob, hssb, hsrsb, hsw, hirob, hisb, hitakes⟩ := renameMark_stores hm
  have hirob' : info.robId = s.rob.wptr := hirob
  have hitakes' : info.takesStoreBuffer = rev.takesStoreBuffer := hitakes
  have hisb' : info.storeBufferId
      = if rev.takesStoreBuffer then s.storeBuffer.ring.wptr.id else 0 := hisb
  refine ⟨by rw [hsrsb]; exact hqrsb.trans hmrsb, by rw [hsw]; exact hqw.trans hmw, ?_, ?_, ?_⟩
  · rw [hsrob, hisb', hirob']
    simp only [hbuf, hqrob, hmrob, Function.update_self]
    rfl
  · intro hn
    rw [hitakes'] at hn
    rw [hssb]
    exact (hqother hn).trans hmsb
  · intro ht
    rw [hitakes'] at ht
    rw [ht, if_pos rfl] at hisb'
    obtain ⟨h₁, h₂, h₃⟩ := hqslot ht
    rw [hmsb] at h₁ h₂ h₃
    rw [hmrob] at h₂
    rw [hssb, hisb', hirob']
    exact ⟨rfl, h₁, h₂, h₃⟩

/-! ## The cells -/

/-- What the store buffer holds in one entry. -/
def Core.storeCell (s : Core) (k : Nat) : Word × Word × StoreBufferItem :=
  (s.storeBuffer.itemAddr k, s.storeBuffer.itemSize k, s.storeBuffer.ring.buffer k)

/-- The write pointer of the store buffer names an entry. -/
def Core.SbTail (s : Core) : Prop := s.storeBuffer.ring.wptr.id < storeBufferSize

/-- **A turn writes the entry of the store buffer it hands out**, and no other. -/
theorem storeCell_writes (cur : Core) : TurnWrites cur Core.SbTail Core.storeCell OpInfo.storeSlot := by
  intro s info s' rev hen hs h
  have hp := renameOp_stores hen hs h
  cases ht : info.takesStoreBuffer with
  | false =>
    refine ⟨?_, fun k _ => ?_⟩
    · rw [Core.SbTail, hp.other ht]
      exact hs
    · rw [Core.storeCell, hp.other ht]
      rfl
  | true =>
    obtain ⟨-, hw, hb, hc⟩ := hp.slot ht
    refine ⟨?_, fun k hk => ?_⟩
    · rw [Core.SbTail, hw]
      unfold Ptr.next
      split
      · exact (by decide : 0 < storeBufferSize)
      · rename_i hlt
        simp only [storeBufferSize] at hlt ⊢
        omega
    · have hne : k ≠ info.storeBufferId := by
        intro he
        rw [OpInfo.storeSlot, ht, if_pos rfl, he] at hk
        exact hk rfl
      rw [Core.storeCell, Core.storeCell, (hc k hne).1, (hc k hne).2, hb, Function.update_of_ne hne]

/-- **A turn writes the entry of the ROB it hands out**, and no other. -/
theorem robCell_writes (cur : Core) :
    TurnWrites cur (fun _ => True) (fun s k => s.rob.buffer k) fun info => some info.robId.id := by
  intro s info s' rev hen _ h
  obtain ⟨-, item, -, hb⟩ := renameOp_rob hen h
  refine ⟨trivial, fun k hk => ?_⟩
  dsimp only
  rw [hb]
  exact Function.update_of_ne (fun he => hk (congrArg some he.symm)) ..

end DreamCore
