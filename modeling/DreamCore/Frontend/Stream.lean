import DreamCore.Frontend.Front
import DreamCore.Frontend.Predecode

/-!
# The stream of fetched instructions

Every instruction that leaves fetch is where the one before it was predicted to go,
or where a redirect sent fetch in between. Behind a redirect the `pc` is right by
itself; what has to be shown is that nothing else comes between a prediction and the
`pc` it is about: that a group follows on from within, that the second level changes
its mind about a branch and the `pc` together, and that a stall holds both.

Ids are handed out in order, so that what is lost or comes twice would show in them.
-/

namespace DreamCore

/-- **A stretch of the stream**, from where it has to begin to where it has to go on. An
instruction behind a redirect begins there instead. -/
def Follows (turns : Nat → Option Word) : Word → List FetchOpInfo → Word → Prop
  | pc, [], pc' => pc' = pc
  | pc, q :: l, pc' => q.pc = (turns q.instId).getD pc ∧ Follows turns q.followPc l pc'

theorem Follows.append {turns : Nat → Option Word} {pc pc' : Word} {l m : List FetchOpInfo} :
    Follows turns pc (l ++ m) pc' ↔ ∃ mid, Follows turns pc l mid ∧ Follows turns mid m pc' := by
  induction l generalizing pc with
  | nil =>
    constructor
    · intro h
      exact ⟨pc, rfl, h⟩
    · rintro ⟨_, rfl, h⟩
      exact h
  | cons q l ih =>
    constructor
    · intro ⟨hq, h⟩
      obtain ⟨mid, hl, hm⟩ := ih.mp h
      exact ⟨mid, ⟨hq, hl⟩, hm⟩
    · intro ⟨mid, ⟨hq, hl⟩, hm⟩
      exact ⟨hq, ih.mpr ⟨mid, hl, hm⟩⟩

/-- Only the redirects in front of its own instructions matter to a stretch. -/
theorem Follows.congr {turns turns' : Nat → Option Word} {pc pc' : Word} {l : List FetchOpInfo}
    (h : Follows turns pc l pc') (heq : ∀ q ∈ l, turns' q.instId = turns q.instId) :
    Follows turns' pc l pc' := by
  induction l generalizing pc with
  | nil => exact h
  | cons q l ih =>
    refine ⟨?_, ih h.2 fun q' hq' => heq q' (List.mem_cons_of_mem _ hq')⟩
    rw [heq q (List.mem_cons_self ..)]
    exact h.1

/-- **What fetch writes about an instruction is sound**: only a legal branch is ever predicted,
and the record of a conditional branch names its own target if it is predicted taken, and the
instruction behind it if not. -/
structure FetchOpInfo.Recorded (q : FetchOpInfo) : Prop where
  enable : q.enable = true
  noCheckpoint : q.branchPredictorInfoPack.checkpointIdValid = false
  legal : q.branchPredictorInfoPack.predicted = true →
    q.hasException = false ∧ q.legalBranch = true
  condition : q.branchPredictorInfoPack.conditionJump = true → opcodeOf q.value = 0x63
  predicted : q.branchPredictorInfoPack.conditionJump = true →
    q.branchPredictorInfoPack.predicted = true
  nextPc : q.branchPredictorInfoPack.conditionJump = true →
    q.branchPredictorInfoPack.nextPc
      = if q.branchPredictorInfoPack.jump then branchTarget q.pc q.value else q.pc + 4

/-- What `bi_mode` has registered about port `i` is about instruction `q`. -/
def BiMode.About (biMode : BiMode) (i : Nat) (q : FetchOpInfo) : Prop :=
  biMode.predictNextPc i = if biMode.predictJump i then branchTarget q.pc q.value else q.pc + 4

/-! ## One group -/

/-- What the loop adds from word `i` on. -/
structure Fetched (i : Nat) (st st' : FetchState) (new : List FetchOpInfo) : Prop where
  sendPack : st'.sendPack = st.sendPack ++ new
  follows : Follows (fun _ => none) st.fetch1.pc new st'.fetch1.pc
  ids : new.map FetchOpInfo.instId = List.range' st.fetch1.nextInstId new.length
  nextInstId : st'.fetch1.nextInstId = st.fetch1.nextInstId + new.length
  recorded : ∀ q ∈ new, q.Recorded
  about : ∀ k q, new[k]? = some q → st'.predictors.biMode.About (i + k) q
  before : ∀ k < i, st'.predictors.biMode.predictJump k = st.predictors.biMode.predictJump k
    ∧ st'.predictors.biMode.predictNextPc k = st.predictors.biMode.predictNextPc k

theorem Fetched.nil {i : Nat} {st : FetchState} : Fetched i st st [] where
  sendPack := (List.append_nil _).symm
  follows := rfl
  ids := rfl
  nextInstId := rfl
  recorded := by simp
  about := by simp
  before := fun _ _ => ⟨rfl, rfl⟩

/-- The pack of an instruction fetch predicts nothing about. -/
theorem predictSwitch_pack {cur new : BranchPredictorSet} {i : Nat} {curPc opcode : Word}
    {p : Predicted} (h : predictSwitch cur new i curPc opcode = some p) :
    p.pack.checkpointIdValid = false
      ∧ (p.pack.conditionJump = true → opcodeOf opcode = 0x63 ∧ p.pack.predicted = true
        ∧ p.pack.jump = new.biModal.predictJump i ∧ p.pack.nextPc = new.biModal.predictNextPc i) := by
  unfold predictSwitch at h
  split at h
  case h_1 =>
    cases h
    exact ⟨rfl, fun hc => by cases hc⟩
  case h_2 =>
    cases h
    have hjalr : (predictJalr cur new i curPc opcode).pack.checkpointIdValid = false
        ∧ (predictJalr cur new i curPc opcode).pack.conditionJump = false := by
      unfold predictJalr
      dsimp only
      split <;> split <;> (try split) <;> exact ⟨rfl, rfl⟩
    refine ⟨hjalr.1, fun hc => ?_⟩
    rw [hjalr.2] at hc
    cases hc
  case h_3 hop =>
    unfold predictBranch at h
    split at h
    · cases h
    · cases h
      exact ⟨rfl, fun _ => ⟨hop, rfl, rfl, rfl⟩⟩
  case h_4 =>
    cases h
    exact ⟨rfl, fun hc => by cases hc⟩

/-- A conditional branch is recorded as `bi_modal` has just answered for its port. -/
theorem predictSwitch_recorded {cur p : BranchPredictorSet} {i instId : Nat}
    {curPc word : Word} {r : Predicted}
    (h : predictSwitch cur (p.predict i curPc (fetchOpcode curPc word)) i curPc
      (fetchOpcode curPc word) = some r) :
    (fetchInfo instId curPc (fetchOpcode curPc word) r.pack).Recorded := by
  obtain ⟨hcheckpoint, hcond⟩ := predictSwitch_pack h
  have hreserved : reservedBranch (fetchOpcode curPc word) = false := by
    have hne := mt (predictSwitch_eq_none cur (p.predict i curPc (fetchOpcode curPc word)) i curPc
      (fetchOpcode curPc word)).mpr (by rw [h]; exact Option.some_ne_none _)
    exact Bool.eq_false_iff.mpr hne
  refine ⟨rfl, hcheckpoint, fun hp => ?_, fun hc => (hcond hc).1, fun hc => (hcond hc).2.1,
    fun hc => ?_⟩
  · have hp : r.pack.predicted = true := hp
    have hlegal : (fetchInfo instId curPc (fetchOpcode curPc word) r.pack).legalBranch = true := by
      rw [fetchInfo_legalBranch, (predictSwitch_jump h).1, hp, hreserved]
      rfl
    refine ⟨?_, hlegal⟩
    show (!checkAlign curPc 4) = false
    cases ha : checkAlign curPc 4 with
    | true => rfl
    | false =>
      have hzero : fetchOpcode curPc word = 0 := by rw [fetchOpcode, ha]; rfl
      rw [fetchInfo_legalBranch, hzero] at hlegal
      cases hlegal
  · obtain ⟨-, -, hjump, hnext⟩ := hcond hc
    show r.pack.nextPc = if r.pack.jump then branchTarget curPc (fetchOpcode curPc word) else curPc + 4
    rw [hjump, hnext]
    simp [BranchPredictorSet.predict, BiModal.predict]

/-- **One word.** -/
theorem fetchWord_fetched {cur : BranchPredictorSet} {i : Nat} {curPc word : Word}
    {st st' : FetchState} {go : Bool} (hpc : st.fetch1.pc = curPc)
    (h : fetchWord cur i curPc (fetchOpcode curPc word) st = some (st', go)) :
    (∃ q, Fetched i st st' [q]) ∧ (go = true → st'.fetch1.pc = curPc + 4) := by
  generalize hop : fetchOpcode curPc word = opcode at h
  unfold fetchWord at h
  obtain ⟨p, hp, h⟩ := Option.map_eq_some_iff.mp h
  cases h
  obtain ⟨hjump, _⟩ := predictSwitch_jump hp
  have hbiMode := predictSwitch_biMode hp
  constructor
  · refine ⟨fetchInfo st.fetch1.nextInstId curPc opcode p.pack, rfl, ?_, rfl, rfl, ?_, ?_, ?_⟩
    · refine ⟨hpc.symm, ?_⟩
      -- fetch leaves the line exactly for a predicted jump that is not to the next word
      show (if fetchJump opcode && p.pack.predicted && p.pack.jump
          && p.pack.nextPc != curPc + 4 then p.pack.nextPc else curPc + 4)
        = if p.pack.predicted && p.pack.jump then p.pack.nextPc else curPc + 4
      rw [hjump]
      cases p.pack.predicted with
      | false => simp
      | true =>
        cases p.pack.jump with
        | false => simp
        | true =>
          by_cases hnext : p.pack.nextPc = curPc + 4
          · simp [hnext]
          · rw [Bool.true_or, bne_iff_ne.mpr hnext]
            rfl
    · intro q hq
      rw [List.mem_singleton.mp hq]
      subst hop
      exact predictSwitch_recorded hp
    · intro k q hq
      rw [List.getElem?_singleton] at hq
      split at hq
      · rename_i hk
        cases hq
        subst hk
        show p.predictors.biMode.About i _
        rw [hbiMode]
        simp [BiMode.About, BranchPredictorSet.predict, BiMode.predict, fetchInfo]
      · cases hq
    · intro k hk
      show p.predictors.biMode.predictJump k = _ ∧ p.predictors.biMode.predictNextPc k = _
      rw [hbiMode]
      have hne : k ≠ i := Nat.ne_of_lt hk
      exact ⟨Function.update_of_ne hne .., Function.update_of_ne hne ..⟩
  · intro hgo
    simp only [Bool.not_eq_true', Bool.or_eq_false_iff] at hgo
    show (if fetchJump opcode && p.pack.predicted && p.pack.jump
      && p.pack.nextPc != curPc + 4 then p.pack.nextPc else curPc + 4) = curPc + 4
    rw [hgo.1.2]
    rfl

theorem Fetched.trans {i : Nat} {st st₁ st₂ : FetchState} {q : FetchOpInfo}
    {new : List FetchOpInfo} (h : Fetched i st st₁ [q]) (h' : Fetched (i + 1) st₁ st₂ new) :
    Fetched i st st₂ (q :: new) where
  sendPack := by rw [h'.sendPack, h.sendPack, List.append_assoc]; rfl
  follows := by
    refine ⟨h.follows.1, ?_⟩
    have hpc : st₁.fetch1.pc = q.followPc := h.follows.2
    rw [← hpc]
    exact h'.follows
  ids := by
    have hq : q.instId = st.fetch1.nextInstId := by simpa using h.ids
    rw [List.map_cons, h'.ids, h.nextInstId, hq]
    exact List.range'_succ.symm
  nextInstId := by
    rw [h'.nextInstId, h.nextInstId]
    simp only [List.length_cons, List.length_nil]
    omega
  recorded := by
    intro q' hq'
    rcases List.mem_cons.mp hq' with rfl | hq'
    · exact h.recorded _ (List.mem_singleton_self _)
    · exact h'.recorded q' hq'
  about := by
    intro k q' hq'
    cases k with
    | zero =>
      obtain ⟨hj, hn⟩ := h'.before i (Nat.lt_succ_self i)
      have habout := h.about 0 q' hq'
      unfold BiMode.About at habout ⊢
      rw [Nat.add_zero] at habout ⊢
      rw [hj, hn]
      exact habout
    | succ k =>
      have habout := h'.about k q' hq'
      rwa [Nat.add_right_comm] at habout
  before := by
    intro k hk
    obtain ⟨hj, hn⟩ := h.before k hk
    obtain ⟨hj', hn'⟩ := h'.before k (Nat.lt_succ_of_lt hk)
    exact ⟨hj'.trans hj, hn'.trans hn⟩

/-- **One group**, by induction over its words: while the loop goes on its `pc` is the one of
the next word. -/
theorem fetchLoop_fetched {cur : BranchPredictorSet} {idle : Bool} {oldPc : Word}
    (words : List Word) (i : Nat) {st st' : FetchState}
    (hpc : st.fetch1.pc = oldPc + BitVec.ofNat 32 (i * 4))
    (h : fetchLoop cur idle oldPc i words st = some st') : ∃ new, Fetched i st st' new := by
  induction words generalizing i st with
  | nil =>
    cases h
    exact ⟨[], .nil⟩
  | cons word words ih =>
    rw [fetchLoop] at h
    obtain ⟨⟨st₁, go⟩, hone, h⟩ := Option.bind_eq_some_iff.mp h
    unfold fetchOne at hone
    dsimp only at hone
    split at hone
    · cases hone
      cases h
      exact ⟨[], .nil⟩
    · obtain ⟨⟨q, hq⟩, hgo⟩ := fetchWord_fetched hpc hone
      cases go with
      | false =>
        cases h
        exact ⟨[q], hq⟩
      | true =>
        obtain ⟨new, hnew⟩ := ih (i + 1) (by rw [hgo rfl]; bv_omega) h
        exact ⟨q :: new, hq.trans hnew⟩

/-! ## The second level -/

theorem level2_none {biMode : BiMode} {qs : List FetchOpInfo} {i : Nat}
    (h : (level2 biMode i qs).newPc = none) : (level2 biMode i qs).pack = qs := by
  induction qs generalizing i with
  | nil => rfl
  | cons q qs ih =>
    unfold level2 at h ⊢
    split
    · rename_i hd
      rw [if_pos hd] at h
      cases h
    · rename_i hd
      rw [if_neg hd] at h
      exact congrArg (q :: ·) (ih h)

/-- **The second level changes its mind about one branch** and drops what is behind it. -/
theorem level2_some {biMode : BiMode} {qs : List FetchOpInfo} {i : Nat} {newPc : Word}
    (h : (level2 biMode i qs).newPc = some newPc) :
    ∃ pre q post, qs = pre ++ q :: post
      ∧ (level2 biMode i qs).pack = pre ++ [level2Change biMode (i + pre.length) q]
      ∧ level2Differs biMode (i + pre.length) q = true
      ∧ newPc = biMode.predictNextPc (i + pre.length) := by
  induction qs generalizing i with
  | nil => cases h
  | cons q qs ih =>
    unfold level2 at h ⊢
    split
    · rename_i hd
      rw [if_pos hd] at h
      cases h
      exact ⟨[], q, qs, rfl, rfl, hd, rfl⟩
    · rename_i hd
      rw [if_neg hd] at h
      obtain ⟨pre, q', post, hqs, hpack, hdiff, hpc⟩ := ih h
      have hi : i + 1 + pre.length = i + (q :: pre).length := by
        rw [List.length_cons]
        omega
      rw [hi] at hpack hdiff hpc
      exact ⟨q :: pre, q', post, congrArg (q :: ·) hqs, congrArg (q :: ·) hpack, hdiff, hpc⟩

/-- The changed branch is where it was and goes where `bi_mode` says. -/
theorem level2Change_follows {biMode : BiMode} {i : Nat} {q : FetchOpInfo}
    (hd : level2Differs biMode i q = true) (habout : biMode.About i q) (hq : q.Recorded) :
    (level2Change biMode i q).Recorded
      ∧ (level2Change biMode i q).followPc = biMode.predictNextPc i := by
  simp only [level2Differs, Bool.and_eq_true] at hd
  have hpred : (level2Change biMode i q).branchPredictorInfoPack.predicted = true := hd.1.1.1
  constructor
  · have hdecode : (level2Change biMode i q).legalBranch = q.legalBranch := by
      have hx := (hq.legal hpred).1
      rw [Fetch2DecodePack.legalBranch_eq hx]
      exact Fetch2DecodePack.legalBranch_eq hx
    refine ⟨hq.enable, hq.noCheckpoint, fun hp => ⟨(hq.legal hp).1, ?_⟩, hq.condition,
      fun _ => hpred, fun _ => habout⟩
    rw [hdecode]
    exact (hq.legal hp).2
  · unfold FetchOpInfo.followPc
    rw [hpred, Bool.true_and]
    show (if biMode.predictJump i then biMode.predictNextPc i else q.pc + 4) = _
    unfold BiMode.About at habout
    cases hj : biMode.predictJump i with
    | true => rfl
    | false =>
      rw [hj] at habout
      exact habout.symm

/-- What is pushed and what is held make up the pack. -/
theorem fetch2Push_split (room : Nat) (pack : List FetchOpInfo) (stall : Bool) (l : Level2) :
    (fetch2Push room pack stall l).pushed
      ++ (if (fetch2Push room pack stall l).fetch2.busy then
        (fetch2Push room pack stall l).fetch2.revPack else []) = pack := by
  unfold fetch2Push
  dsimp only
  split
  · rename_i hroom
    rw [List.take_of_length_le hroom]
    exact List.append_nil _
  · exact List.take_append_drop room pack

/-! ## The ids -/

/-- **The ids `0, 1, …` below `next`, handed out in order**: each is held, at its place in the
order, or given up. -/
structure HandedOut (held givenUp : List Nat) (next : Nat) : Prop where
  increasing : held.Pairwise (· < ·)
  below : ∀ id ∈ held ++ givenUp, id < next
  apart : ∀ id ∈ held, id ∉ givenUp
  every : ∀ id < next, id ∈ held ∨ id ∈ givenUp

theorem HandedOut.giveUp {kept rest givenUp : List Nat} {next : Nat}
    (h : HandedOut (kept ++ rest) givenUp next) : HandedOut kept (givenUp ++ rest) next where
  increasing := (List.pairwise_append.mp h.increasing).1
  below := by
    intro id hid
    refine h.below id ?_
    simp only [List.mem_append] at hid ⊢
    rcases hid with hid | hid | hid
    · exact .inl (.inl hid)
    · exact .inr hid
    · exact .inl (.inr hid)
  apart := by
    intro id hid hgiven
    rcases List.mem_append.mp hgiven with hgiven | hrest
    · exact h.apart id (List.mem_append_left _ hid) hgiven
    · exact Nat.lt_irrefl id ((List.pairwise_append.mp h.increasing).2.2 id hid id hrest)
  every := by
    intro id hid
    rcases h.every id hid with hheld | hgiven
    · rcases List.mem_append.mp hheld with hheld | hrest
      · exact .inl hheld
      · exact .inr (List.mem_append_right _ hrest)
    · exact .inr (List.mem_append_left _ hgiven)

theorem HandedOut.handOut {held givenUp : List Nat} {next : Nat} (h : HandedOut held givenUp next)
    (k : Nat) : HandedOut (held ++ List.range' next k) givenUp (next + k) where
  increasing := by
    refine List.pairwise_append.mpr ⟨h.increasing, List.pairwise_lt_range', ?_⟩
    intro a ha b hb
    have hlt := h.below a (List.mem_append_left _ ha)
    have hge := List.left_le_of_mem_range' hb
    omega
  below := by
    intro id hid
    simp only [List.mem_append, List.mem_range'_1] at hid
    rcases hid with (hid | hid) | hid
    · have := h.below id (List.mem_append_left _ hid)
      omega
    · omega
    · have := h.below id (List.mem_append_right _ hid)
      omega
  apart := by
    intro id hid hgiven
    rcases List.mem_append.mp hid with hid | hid
    · exact h.apart id hid hgiven
    · have hlt := h.below id (List.mem_append_right _ hgiven)
      have hge := List.left_le_of_mem_range' hid
      omega
  every := by
    intro id hid
    by_cases hlt : id < next
    · rcases h.every id hlt with hheld | hgiven
      · exact .inl (List.mem_append_left _ hheld)
      · exact .inr hgiven
    · refine .inl (List.mem_append_right _ (List.mem_range'_1.mpr ?_))
      omega

/-! ## The invariant -/

/-- **Fetch and its history fit together.** -/
structure FrontInv (w : FrontWorld) : Prop where
  /-- The stream goes on at the `pc`, unless a redirect came behind it. -/
  stream : ∃ last, Follows w.turns initPc (w.sent ++ w.front.pending) last
    ∧ w.front.fetch1.pc = w.turn.getD last
  ids : HandedOut ((w.sent ++ w.front.pending).map FetchOpInfo.instId) w.squashed
    w.front.fetch1.nextInstId
  fresh : ∀ id, w.front.fetch1.nextInstId ≤ id → w.turns id = none
  recorded : ∀ q ∈ w.sent ++ w.front.pending, q.Recorded
  about : ∀ k q, w.front.port[k]? = some q → w.front.predictors.biMode.About k q

theorem frontInv_init : FrontInv FrontWorld.init where
  stream := ⟨initPc, rfl, rfl⟩
  ids := ⟨.nil, by simp [FrontWorld.init, Front.reset, Front.pending, Fetch2.reset],
    by simp [FrontWorld.init, Front.reset, Front.pending, Fetch2.reset],
    fun id hid => absurd hid (Nat.not_lt_zero id)⟩
  fresh := fun _ _ => rfl
  recorded := by simp [FrontWorld.init, Front.reset, Front.pending, Fetch2.reset]
  about := by simp [FrontWorld.init, Front.reset]

/-! ## What a cycle does -/

variable {w : FrontWorld} {inp : FrontInput} {r : FrontResult}

/-- The end of the cycle leaves the registered answers alone. -/
theorem About.sync {p : BranchPredictorSet} (requests : List SyncRequest) {k : Nat}
    {q : FetchOpInfo} (h : p.biMode.About k q) : (p.sync requests).biMode.About k q := by
  obtain ⟨hj, hn⟩ := p.sync_answers requests
  unfold BiMode.About at h ⊢
  rw [hj, hn]
  exact h

/-- **A flush** empties fetch. -/
theorem cycle_flush {s : Front} (h : s.cycle inp = some r) (hf : inp.flush = true) :
    r.next.pending = [] ∧ r.next.port = [] ∧ r.fetch2.pushed = [] ∧ r.fetch1.port = some []
      ∧ r.next.fetch1.nextInstId = s.fetch1.nextInstId := by
  unfold Front.cycle at h
  obtain ⟨r₁, hr₁, h⟩ := Option.map_eq_some_iff.mp h
  cases h
  have hredirect : ∃ pc, r₁ = s.fetch1.redirect s.predictors pc := by
    unfold FrontInput.flush at hf
    unfold Fetch1.run Front.fetch1Input at hr₁
    dsimp only at hr₁
    split at hr₁
    · split at hr₁
      · exact ⟨_, (Option.some.inj hr₁).symm⟩
      · split at hr₁
        · split at hr₁
          · exact ⟨_, (Option.some.inj hr₁).symm⟩
          · cases hr₁
        · exact ⟨_, (Option.some.inj hr₁).symm⟩
    · rename_i hcommit
      split at hr₁
      · exact ⟨_, (Option.some.inj hr₁).symm⟩
      · rename_i hbru
        split at hr₁
        · exact ⟨_, (Option.some.inj hr₁).symm⟩
        · rename_i hsau
          simp [hcommit, hbru, hsau] at hf
  obtain ⟨pc, rfl⟩ := hredirect
  rw [hf]
  exact ⟨rfl, rfl, rfl, rfl, rfl⟩

/-- **A flush sends fetch** where the stage says it comes from, and ends a wait for a jump. -/
theorem cycle_target {s : Front} (h : s.cycle inp = some r) (hf : inp.flush = true)
    (ht : inp.commit.Targeted) :
    r.next.fetch1.pc = inp.target ∧ r.next.fetch1.jumpWait = false := by
  unfold Front.cycle at h
  obtain ⟨r₁, hr₁, h⟩ := Option.map_eq_some_iff.mp h
  cases h
  unfold Fetch1.run Front.fetch1Input at hr₁
  unfold FrontInput.target CommitFeedback.target
  unfold FrontInput.flush at hf
  dsimp only at hr₁ ⊢
  cases hc : inp.commit.flush with
  | true =>
    rw [hc, if_pos rfl] at hr₁
    rcases ht hc with hx | ⟨hen, hj⟩
    · rw [hx, if_pos rfl] at hr₁ ⊢
      cases hr₁
      exact ⟨rfl, rfl⟩
    · rw [hen, hj] at hr₁
      cases hx : inp.commit.hasException <;> rw [hx] at hr₁ <;> cases hr₁ <;> exact ⟨rfl, rfl⟩
  | false =>
    rw [hc, if_neg Bool.false_ne_true] at hr₁
    cases hb : inp.bru.flush with
    | true =>
      rw [hb, if_pos rfl] at hr₁
      cases hr₁
      exact ⟨rfl, rfl⟩
    | false =>
      have hs : inp.sau.flush = true := by rwa [hc, hb] at hf
      rw [hb, if_neg Bool.false_ne_true, hs, if_pos rfl] at hr₁
      cases hr₁
      exact ⟨rfl, rfl⟩

theorem frontInv_flush (hi : FrontInv w) (ht : inp.commit.Targeted)
    (h : w.front.cycle inp = some r) (hf : inp.flush = true) : FrontInv (w.act inp r) := by
  obtain ⟨hpending, hport, hpushed, hport₁, hnext⟩ := cycle_flush h hf
  have hsent : (w.act inp r).sent ++ (w.act inp r).front.pending = w.sent := by
    show w.sent ++ r.fetch2.pushed ++ r.next.pending = w.sent
    rw [hpushed, hpending, List.append_nil, List.append_nil]
  have hturns : (w.act inp r).turns = w.turns := by
    show w.turnsAfter r = w.turns
    rw [FrontWorld.turnsAfter, hport₁]
    rfl
  obtain ⟨last, hfollows, _⟩ := hi.stream
  obtain ⟨mid, hmid, _⟩ := Follows.append.mp hfollows
  refine ⟨⟨mid, ?_, ?_⟩, ?_, ?_, ?_, ?_⟩
  · rw [hsent, hturns]
    exact hmid
  · show r.next.fetch1.pc = (w.turnAfter inp r).getD mid
    rw [FrontWorld.turnAfter, if_pos hf]
    exact (cycle_target h hf ht).1
  · rw [hsent]
    show HandedOut _ (w.squashed ++ (if inp.flush then w.front.pending else w.dropped).map _) _
    rw [if_pos hf]
    show HandedOut _ _ r.next.fetch1.nextInstId
    rw [hnext]
    refine HandedOut.giveUp ?_
    rw [← List.map_append]
    exact hi.ids
  · rw [hturns]
    intro id hid
    exact hi.fresh id (hnext ▸ hid)
  · rw [hsent]
    intro q hq
    exact hi.recorded q (List.mem_append_left _ hq)
  · show ∀ k q, r.next.port[k]? = some q → _
    rw [hport]
    simp

/-- What a wait for a jump comes to in this cycle. -/
def Fetch1.resolve (f : Fetch1) (commit : CommitFeedback) : Fetch1 :=
  if f.jumpWait && commit.jumpEnable then
    { f with jumpWait := false, pc := if commit.jump then commit.jumpNextPc else f.pc }
  else f

/-- The first level without a redirect: a wait, a stall, nothing from the bus, or a group. -/
theorem advance_fetched {f : Fetch1} {predictors : BranchPredictorSet} {inp : Fetch1Input}
    {st : FetchState} (h : f.advance predictors inp = some st) :
    ∃ new, Fetched 0 { fetch1 := f.resolve inp.commit, predictors := predictors } st new
      ∧ (f.jumpWait = true → new = [])
      ∧ (inp.stall = true →
        st = { fetch1 := f.resolve inp.commit, predictors := predictors }) := by
  unfold Fetch1.advance at h
  unfold Fetch1.resolve
  cases hj : f.jumpWait with
  | true =>
    rw [hj, if_pos rfl] at h
    cases he : inp.commit.jumpEnable <;> rw [he] at h <;> cases h <;>
      exact ⟨[], .nil, fun _ => rfl, fun _ => rfl⟩
  | false =>
    rw [hj, if_neg Bool.false_ne_true] at h
    rw [Bool.false_and, if_neg Bool.false_ne_true]
    split at h
    · rename_i words hstall _
      obtain ⟨new, hnew⟩ := fetchLoop_fetched (List.ofFn words) 0
        (by exact (BitVec.add_zero f.pc).symm) h
      exact ⟨new, hnew, (fun hc => by cases hc), fun hc => by rw [hstall] at hc; cases hc⟩
    · cases h
      exact ⟨[], .nil, fun _ => rfl, fun _ => rfl⟩

/-- **A cycle without flush or redirect**: what was pending moves on, a group joins it. -/
structure PlainCycle (s : Front) (inp : FrontInput) (r : FrontResult) (st : FetchState)
    (new : List FetchOpInfo) : Prop where
  fetched : Fetched 0 { fetch1 := s.fetch1.resolve inp.commit, predictors := s.predictors } st new
  wait : s.fetch1.jumpWait = true → new = []
  moved : r.fetch2.pushed ++ r.next.pending = s.pending ++ new
  fetch1 : r.next.fetch1 = st.fetch1
  handed : r.fetch1.port.getD [] = new
  redirect : r.fetch2.feedback.pcRedirect = false
  port : (r.next.port = new ∧ ∃ requests, r.next.predictors = st.predictors.sync requests)
    ∨ (r.next.port = s.port ∧ ∃ requests, r.next.predictors = s.predictors.sync requests)

theorem run_plain {f : Fetch1} {predictors : BranchPredictorSet} {inp : Fetch1Input}
    {r : Fetch1Result} (h : f.run predictors inp = some r)
    (hcommit : inp.commit.flush = false) (hbru : inp.bru.flush = false)
    (hsau : inp.sau.flush = false) (hredirect : inp.pcRedirect = false) :
    ∃ st, f.advance predictors inp = some st ∧ r.fetch1 = st.fetch1
      ∧ r.predictors = st.predictors
      ∧ r.port = if inp.stall then none else some st.sendPack := by
  unfold Fetch1.run at h
  rw [hcommit, hbru, hsau, hredirect] at h
  obtain ⟨st, hst, h⟩ := Option.map_eq_some_iff.mp h
  cases h
  exact ⟨st, hst, rfl, rfl, rfl⟩

theorem FrontInput.flush_eq_false {inp : FrontInput} :
    inp.flush = false ↔ inp.commit.flush = false ∧ inp.bru.flush = false ∧ inp.sau.flush = false := by
  simp only [FrontInput.flush, Bool.or_eq_false_iff, and_assoc]

theorem Fetch2.run_busy {f : Fetch2} {biMode : BiMode} {port : List FetchOpInfo} {room : Nat}
    (hb : f.busy = true) :
    f.run biMode port room false = fetch2Push room f.revPack true {} := by
  rw [Fetch2.run, if_neg Bool.false_ne_true, if_pos hb]

theorem Fetch2.run_free {f : Fetch2} {biMode : BiMode} {port : List FetchOpInfo} {room : Nat}
    (hb : f.busy = false) :
    f.run biMode port room false
      = fetch2Push room (level2 biMode 0 port).pack false (level2 biMode 0 port) := by
  rw [Fetch2.run, if_neg Bool.false_ne_true, hb]
  rfl

theorem cycle_plain {s : Front} (h : s.cycle inp = some r) (hf : inp.flush = false)
    (hredirect : r.fetch2.feedback.pcRedirect = false) :
    ∃ st new, PlainCycle s inp r st new
      ∧ (s.fetch2.busy = false → (level2 s.predictors.biMode 0 s.port).pack = s.port) := by
  obtain ⟨hcommit, hbru, hsau⟩ := FrontInput.flush_eq_false.mp hf
  unfold Front.cycle at h
  obtain ⟨r₁, hr₁, h⟩ := Option.map_eq_some_iff.mp h
  cases h
  dsimp only at hredirect
  obtain ⟨st, hst, hfetch1, hpred, hport⟩ := run_plain hr₁ hcommit hbru hsau hredirect
  obtain ⟨new, hnew, hwait, hstall⟩ := advance_fetched hst
  rw [hf] at hredirect hport hst hstall ⊢
  cases hb : s.fetch2.busy with
  | true =>
    -- what is held is pushed, and the port waits
    rw [Fetch2.run_busy hb] at hport hstall ⊢
    have hport : r₁.port = none := hport
    have hstay := hstall rfl
    subst hstay
    refine ⟨{ fetch1 := s.fetch1.resolve inp.commit, predictors := s.predictors }, [],
      ⟨.nil, fun _ => rfl, ?_, hfetch1, ?_, rfl, .inr ⟨?_, ?_⟩⟩, fun hc => by cases hc⟩
    · have hsplit := fetch2Push_split inp.room s.fetch2.revPack true {}
      show _ ++ (_ ++ r₁.port.getD s.port)
        = (if s.fetch2.busy then s.fetch2.revPack else []) ++ s.port ++ []
      rw [← List.append_assoc, hsplit, hport, hb, List.append_nil]
      rfl
    · rw [hport]
      rfl
    · rw [hport]
      rfl
    · exact ⟨_, congrArg (BranchPredictorSet.sync · _) hpred⟩
  | false =>
    rw [Fetch2.run_free hb] at hredirect hport ⊢
    have hnone : (level2 s.predictors.biMode 0 s.port).newPc = none := by
      simpa [fetch2Push] using hredirect
    have hpack := level2_none hnone
    have hport : r₁.port = some st.sendPack := hport
    have hsend : st.sendPack = new := by rw [hnew.sendPack]; rfl
    refine ⟨st, new, ⟨hnew, hwait, ?_, hfetch1, ?_, hredirect, .inl ⟨?_, ?_⟩⟩, fun _ => hpack⟩
    · have hsplit := fetch2Push_split inp.room s.port false (level2 s.predictors.biMode 0 s.port)
      show _ ++ (_ ++ r₁.port.getD s.port)
        = (if s.fetch2.busy then s.fetch2.revPack else []) ++ s.port ++ new
      rw [← List.append_assoc, hpack, hsplit, hport, hb, hsend]
      rfl
    · rw [hport, hsend]
      rfl
    · rw [hport, hsend]
      rfl
    · exact ⟨_, congrArg (BranchPredictorSet.sync · _) hpred⟩

/-- **A cycle in which the second level sends fetch elsewhere**: the branch it is about is the
last to be kept. -/
theorem cycle_redirect {s : Front} (h : s.cycle inp = some r) (hf : inp.flush = false)
    (hredirect : r.fetch2.feedback.pcRedirect = true) :
    s.fetch2.busy = false ∧ ∃ pre q post, s.port = pre ++ q :: post
      ∧ (level2 s.predictors.biMode 0 s.port).pack
        = pre ++ [level2Change s.predictors.biMode pre.length q]
      ∧ level2Differs s.predictors.biMode pre.length q = true
      ∧ r.fetch2.pushed ++ r.next.pending
        = pre ++ [level2Change s.predictors.biMode pre.length q]
      ∧ r.next.fetch1.pc = s.predictors.biMode.predictNextPc pre.length
      ∧ r.next.fetch1.nextInstId = s.fetch1.nextInstId
      ∧ r.fetch1.port = some [] ∧ r.next.port = [] := by
  obtain ⟨hcommit, hbru, hsau⟩ := FrontInput.flush_eq_false.mp hf
  unfold Front.cycle at h
  obtain ⟨r₁, hr₁, h⟩ := Option.map_eq_some_iff.mp h
  cases h
  dsimp only at hredirect
  rw [hf] at hredirect hr₁ ⊢
  cases hb : s.fetch2.busy with
  | true =>
    rw [Fetch2.run_busy hb] at hredirect
    cases hredirect
  | false =>
    rw [Fetch2.run_free hb] at hredirect hr₁ ⊢
    obtain ⟨newPc, hnew⟩ := Option.isSome_iff_exists.mp hredirect
    obtain ⟨pre, q, post, hport, hpack, hdiff, rfl⟩ := level2_some hnew
    rw [Nat.zero_add] at hpack hdiff hnew
    have hr : r₁ = s.fetch1.redirect s.predictors (s.predictors.biMode.predictNextPc pre.length) := by
      unfold Fetch1.run Front.fetch1Input at hr₁
      simp only [hcommit, hbru, hsau, hredirect, if_true, Bool.false_eq_true, if_false,
        Option.some.injEq] at hr₁
      rw [← hr₁]
      simp only [fetch2Push, hnew, Option.getD_some]
    subst hr
    refine ⟨rfl, pre, q, post, hport, hpack, hdiff, ?_, rfl, rfl, rfl, rfl⟩
    have hsplit := fetch2Push_split inp.room (level2 s.predictors.biMode 0 s.port).pack false
      (level2 s.predictors.biMode 0 s.port)
    show _ ++ (_ ++ []) = _
    rw [List.append_nil, hsplit, hpack]

theorem frontInv_redirect (hi : FrontInv w) (h : w.front.cycle inp = some r)
    (hf : inp.flush = false) (hredirect : r.fetch2.feedback.pcRedirect = true) :
    FrontInv (w.act inp r) := by
  obtain ⟨hb, pre, q, post, hport, hpack, hdiff, hmoved, hpc, hnext, hport₁, hport'⟩ :=
    cycle_redirect h hf hredirect
  have hpending : w.front.pending = pre ++ q :: post := by
    rw [Front.pending, hb, hport]
    rfl
  have hq : w.front.predictors.biMode.About pre.length q := hi.about pre.length q (by rw [hport]; simp)
  obtain ⟨hrecorded, hfollow⟩ := level2Change_follows hdiff hq
    (hi.recorded q (by rw [hpending]; simp))
  have hsent : (w.act inp r).sent ++ (w.act inp r).front.pending
      = w.sent ++ pre ++ [level2Change w.front.predictors.biMode pre.length q] := by
    show w.sent ++ r.fetch2.pushed ++ r.next.pending = _
    rw [List.append_assoc, hmoved, List.append_assoc]
  have hturns : (w.act inp r).turns = w.turns := by
    show w.turnsAfter r = w.turns
    rw [FrontWorld.turnsAfter, hport₁]
    rfl
  have hids : ((w.act inp r).sent ++ (w.act inp r).front.pending).map FetchOpInfo.instId
      = (w.sent ++ pre ++ [q]).map FetchOpInfo.instId := by
    rw [hsent]
    simp only [List.map_append]
    rfl
  refine ⟨⟨w.front.predictors.biMode.predictNextPc pre.length, ?_, ?_⟩, ?_, ?_, ?_, ?_⟩
  · obtain ⟨last, hfollows, _⟩ := hi.stream
    rw [hpending, ← List.append_assoc] at hfollows
    obtain ⟨mid, hmid, hq, _⟩ := Follows.append.mp hfollows
    rw [hsent, hturns]
    exact Follows.append.mpr ⟨mid, hmid, hq, hfollow.symm⟩
  · show r.next.fetch1.pc = (w.turnAfter inp r).getD _
    rw [FrontWorld.turnAfter, if_neg (by rw [hf]; exact Bool.false_ne_true), if_pos hredirect]
    exact hpc
  · rw [hids]
    show HandedOut _ (w.squashed ++ (if inp.flush then _ else w.dropped).map _) r.next.fetch1.nextInstId
    have hdropped : w.dropped = post := by
      rw [FrontWorld.dropped, hb, hpack, hport]
      simp
    rw [hnext, hf, hdropped]
    refine HandedOut.giveUp ?_
    rw [← List.map_append, List.append_assoc]
    have hids := hi.ids
    rwa [hpending, ← List.append_assoc] at hids
  · rw [hturns]
    intro id hid
    exact hi.fresh id (hnext ▸ hid)
  · rw [hsent]
    intro q' hq'
    rcases List.mem_append.mp hq' with hq' | hq'
    · refine hi.recorded q' ?_
      rw [hpending, ← List.append_assoc]
      exact List.mem_append_left _ hq'
    · rw [List.mem_singleton.mp hq']
      exact hrecorded
  · show ∀ k q, r.next.port[k]? = some q → _
    rw [hport']
    simp

/-- The ids of a new group are those no redirect has been noted for. -/
theorem follows_group {turns : Nat → Option Word} {pc pc' last : Word} {turn : Option Word}
    {q : FetchOpInfo} {new : List FetchOpInfo} {next : Nat}
    (h : Follows (fun _ => none) pc (q :: new) pc')
    (hids : (q :: new).map FetchOpInfo.instId = List.range' next (q :: new).length)
    (hfresh : ∀ id, next ≤ id → turns id = none) (hpc : pc = turn.getD last) :
    Follows (Function.update turns q.instId turn) last (q :: new) pc' := by
  rw [List.length_cons, List.range'_succ, List.map_cons, List.cons.injEq] at hids
  obtain ⟨hq, hnew⟩ := hids
  refine ⟨?_, h.2.congr fun q' hq' => ?_⟩
  · rw [Function.update_self, ← hpc]
    exact h.1
  · have hmem : q'.instId ∈ List.range' (next + 1) new.length := by
      rw [← hnew]
      exact List.mem_map_of_mem hq'
    have hge := List.left_le_of_mem_range' hmem
    rw [Function.update_of_ne (by omega)]
    exact hfresh _ (by omega)

/-- A cycle that fetches nothing leaves the `pc` alone, or ends a wait for a jump. -/
theorem PlainCycle.turn_idle {st : FetchState} (hc : PlainCycle w.front inp r st [])
    (hf : inp.flush = false) {last : Word} (hlast : w.front.fetch1.pc = w.turn.getD last) :
    w.turnsAfter r = w.turns ∧ r.next.fetch1.pc = (w.turnAfter inp r).getD last := by
  have hpc : r.next.fetch1.pc = (w.front.fetch1.resolve inp.commit).pc := by
    rw [hc.fetch1]
    exact hc.fetched.follows
  refine ⟨by rw [FrontWorld.turnsAfter, hc.handed], ?_⟩
  rw [hpc, FrontWorld.turnAfter, hf, hc.redirect, hc.handed]
  unfold Fetch1.resolve
  cases hj : w.front.fetch1.jumpWait with
  | false => exact hlast
  | true =>
    cases inp.commit.jumpEnable with
    | false => exact hlast
    | true =>
      cases hjump : inp.commit.jump with
      | false => exact hlast
      | true => rfl

/-- A cycle that fetches a group goes on behind it. -/
theorem PlainCycle.turn_group {st : FetchState} {q : FetchOpInfo} {new : List FetchOpInfo}
    (hc : PlainCycle w.front inp r st (q :: new)) (hf : inp.flush = false) :
    w.front.fetch1.jumpWait = false
      ∧ w.turnsAfter r = Function.update w.turns q.instId w.turn
      ∧ w.turnAfter inp r = none := by
  have hj : w.front.fetch1.jumpWait = false := by
    cases hj : w.front.fetch1.jumpWait with
    | false => rfl
    | true => cases hc.wait hj
  refine ⟨hj, ?_, ?_⟩
  · rw [FrontWorld.turnsAfter, hc.handed]
  · rw [FrontWorld.turnAfter, hf, hc.redirect, hc.handed, hj]
    rfl

theorem frontInv_plain (hi : FrontInv w) (h : w.front.cycle inp = some r)
    (hf : inp.flush = false) (hredirect : r.fetch2.feedback.pcRedirect = false) :
    FrontInv (w.act inp r) := by
  obtain ⟨st, new, hc, hpack⟩ := cycle_plain h hf hredirect
  obtain ⟨last, hfollows, hlast⟩ := hi.stream
  have hsent : (w.act inp r).sent ++ (w.act inp r).front.pending
      = w.sent ++ w.front.pending ++ new := by
    show w.sent ++ r.fetch2.pushed ++ r.next.pending = _
    rw [List.append_assoc, hc.moved, List.append_assoc]
  have hresolve : (w.front.fetch1.resolve inp.commit).nextInstId = w.front.fetch1.nextInstId := by
    unfold Fetch1.resolve
    split <;> rfl
  have hnext : r.next.fetch1.nextInstId = w.front.fetch1.nextInstId + new.length := by
    rw [hc.fetch1, hc.fetched.nextInstId]
    exact congrArg (· + new.length) hresolve
  have hold : ∀ q ∈ w.sent ++ w.front.pending, q.instId < w.front.fetch1.nextInstId :=
    fun q hq => hi.ids.below _ (List.mem_append_left _ (List.mem_map_of_mem hq))
  refine ⟨?_, ?_, ?_, ?_, ?_⟩
  · rw [hsent]
    show ∃ l, Follows (w.turnsAfter r) initPc _ l ∧ r.next.fetch1.pc = (w.turnAfter inp r).getD l
    cases new with
    | nil =>
      obtain ⟨hturns, hpc⟩ := hc.turn_idle hf hlast
      rw [hturns, List.append_nil]
      exact ⟨last, hfollows, hpc⟩
    | cons q new =>
      obtain ⟨hj, hturns, hturn⟩ := hc.turn_group hf
      have hstay : w.front.fetch1.resolve inp.commit = w.front.fetch1 := by
        rw [Fetch1.resolve, hj]
        rfl
      have hgroup := hc.fetched.follows
      have hids := hc.fetched.ids
      rw [hstay] at hgroup hids
      rw [hturns, hturn]
      refine ⟨st.fetch1.pc, Follows.append.mpr ⟨last, hfollows.congr fun q' hq' => ?_, ?_⟩, ?_⟩
      · have hq : q.instId = w.front.fetch1.nextInstId := by
          rw [List.length_cons, List.range'_succ, List.map_cons, List.cons.injEq] at hids
          exact hids.1
        have hlt := hold q' hq'
        exact Function.update_of_ne (by omega) ..
      · exact follows_group hgroup hids hi.fresh hlast
      · rw [hc.fetch1]
        rfl
  · rw [hsent, List.map_append, hc.fetched.ids]
    show HandedOut _ (w.squashed ++ (if inp.flush then _ else w.dropped).map _) r.next.fetch1.nextInstId
    have hdropped : w.dropped = [] := by
      unfold FrontWorld.dropped
      cases hb : w.front.fetch2.busy with
      | true => rfl
      | false =>
        rw [hpack hb, List.drop_length]
        rfl
    rw [hnext, hf, hdropped]
    show HandedOut (_ ++ List.range' (w.front.fetch1.resolve inp.commit).nextInstId _)
      (w.squashed ++ []) _
    rw [hresolve, List.append_nil]
    exact hi.ids.handOut new.length
  · intro id hid
    show w.turnsAfter r id = none
    have hlt : w.front.fetch1.nextInstId + new.length ≤ id := hnext ▸ hid
    cases new with
    | nil =>
      rw [(hc.turn_idle hf hlast).1]
      exact hi.fresh id hlt
    | cons q new =>
      have hq : q.instId = w.front.fetch1.nextInstId := by
        have hids := hc.fetched.ids
        rw [List.length_cons, List.range'_succ, List.map_cons, List.cons.injEq] at hids
        exact hids.1.trans hresolve
      rw [List.length_cons] at hlt
      rw [(hc.turn_group hf).2.1, Function.update_of_ne (by omega)]
      exact hi.fresh id (by omega)
  · rw [hsent]
    intro q hq
    rcases List.mem_append.mp hq with hq | hq
    · exact hi.recorded q hq
    · exact hc.fetched.recorded q hq
  · intro k q hq
    rcases hc.port with ⟨hport, requests, hpred⟩ | ⟨hport, requests, hpred⟩
    · show r.next.predictors.biMode.About k q
      rw [hpred]
      have habout := hc.fetched.about k q (hport ▸ hq)
      rw [Nat.zero_add] at habout
      exact About.sync requests habout
    · show r.next.predictors.biMode.About k q
      rw [hpred]
      exact About.sync requests (hi.about k q (hport ▸ hq))

/-- **The invariant holds in every reachable world.** -/
theorem frontInv_reachable (h : FrontReachable w) : FrontInv w := by
  induction h with
  | init => exact frontInv_init
  | cycle inp r _ ht hc ih =>
    cases hf : inp.flush with
    | true => exact frontInv_flush ih ht hc hf
    | false =>
      cases hredirect : r.fetch2.feedback.pcRedirect with
      | true => exact frontInv_redirect ih hc hf hredirect
      | false => exact frontInv_plain ih hc hf hredirect

end DreamCore
