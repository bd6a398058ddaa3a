import DreamCore.Frontend.Front
import DreamCore.Frontend.Predecode

/-!
# The history registers of `bi_mode`

`bi_mode` has two of them. Fetch shifts the way a branch is predicted to go into the
speculative one, commit shifts the way it went into the other. Here is what each
request does to the two, and that fetch on its own never touches the one of commit.
-/

namespace DreamCore

namespace BiMode

/-- The register behind a list of outcomes, the youngest lowest. -/
def history (outcomes : List Bool) : Word := outcomes.foldl shift 0

@[simp] theorem history_nil : history [] = 0 := rfl

theorem history_concat (outcomes : List Bool) (jump : Bool) :
    history (outcomes ++ [jump]) = shift (history outcomes) jump := by
  rw [history, List.foldl_append]
  rfl

/-! ## Bits -/

theorem getLsbD_shift (h : Word) (jump : Bool) (i : Nat) :
    (shift h jump).getLsbD i
      = if i = 0 then jump else decide (i < 16) && h.getLsbD (i - 1) := by
  have hmask : (0xffff : Word).getLsbD i = decide (i < 16) := by
    have hnum : (0xffff : Word) = BitVec.ofNat 32 (2 ^ 16 - 1) := rfl
    rw [hnum, BitVec.getLsbD_ofNat, Nat.testBit_two_pow_sub_one, ← Bool.decide_and]
    exact decide_eq_decide.mpr ⟨fun h => h.2, fun h => ⟨by omega, h⟩⟩
  have hlow : (if jump then 1 else 0 : Word).getLsbD i = (decide (i = 0) && jump) := by
    cases jump with
    | false => simp
    | true => simp
  rw [shift, BitVec.getLsbD_or, BitVec.getLsbD_and, BitVec.getLsbD_shiftLeft, hmask, hlow]
  by_cases hi : i = 0
  · simp [hi]
  · have h1 : ¬ i < 1 := by omega
    by_cases h16 : i < 16
    · simp [hi, h1, h16, show i < 32 by omega]
    · simp [hi, h16]

/-- Two registers agree after a shift when they agree but for the outcome they lose. -/
theorem shift_eq_iff {a b : Word} (jump : Bool) :
    shift a jump = shift b jump ↔ a &&& 0x7fff = b &&& 0x7fff := by
  have hmask : ∀ i, (0x7fff : Word).getLsbD i = decide (i < 15) := by
    intro i
    have hnum : (0x7fff : Word) = BitVec.ofNat 32 (2 ^ 15 - 1) := rfl
    rw [hnum, BitVec.getLsbD_ofNat, Nat.testBit_two_pow_sub_one, ← Bool.decide_and]
    exact decide_eq_decide.mpr ⟨fun h => h.2, fun h => ⟨by omega, h⟩⟩
  constructor
  · intro h
    refine BitVec.eq_of_getLsbD_eq fun i _ => ?_
    have hbit := congrArg (fun w : Word => w.getLsbD (i + 1)) h
    simp only [getLsbD_shift, if_neg (Nat.succ_ne_zero i), Nat.add_sub_cancel] at hbit
    rw [BitVec.getLsbD_and, BitVec.getLsbD_and, hmask]
    by_cases h15 : i < 15
    · simpa [h15, show i + 1 < 16 by omega] using hbit
    · simp [h15]
  · intro h
    refine BitVec.eq_of_getLsbD_eq fun i _ => ?_
    rw [getLsbD_shift, getLsbD_shift]
    by_cases hi : i = 0
    · simp [hi]
    · have hbit := congrArg (fun w : Word => w.getLsbD (i - 1)) h
      simp only [BitVec.getLsbD_and, hmask] at hbit
      rw [if_neg hi, if_neg hi]
      by_cases h16 : i < 16
      · simpa [h16, show i - 1 < 15 by omega] using hbit
      · simp [h16]

/-! ## Requests -/

variable {p : BiMode} {pc : Word} {jump hit : Bool} {pack : BranchPredictorInfoPack}

theorem train_histories (history : Word) :
    (p.train history pc jump hit).globalHistory = p.globalHistory
      ∧ (p.train history pc jump hit).globalHistoryRetired = p.globalHistoryRetired := by
  unfold train
  dsimp only
  split <;> split <;> exact ⟨rfl, rfl⟩

/-- **What a retired branch does to the speculative history.** It is restored from the history of
the branches before it. -/
theorem update_globalHistory : (p.update pc jump hit pack).globalHistory
    = if pack.conditionJump && (!hit && !pack.checkpointIdValid) then p.globalHistoryRetired
      else p.globalHistory := by
  unfold update
  cases hc : pack.conditionJump with
  | false => simp
  | true =>
    simp only [if_true, Bool.true_and]
    split
    · exact (train_histories _).2
    · exact (train_histories _).1

theorem update_globalHistoryRetired : (p.update pc jump hit pack).globalHistoryRetired
    = if pack.conditionJump then shift p.globalHistoryRetired jump
      else p.globalHistoryRetired := by
  unfold update
  cases hc : pack.conditionJump with
  | false => simp
  | true =>
    simp only [if_true]
    split <;> rw [(train_histories _).2]

end BiMode

/-- A request fetch itself can make. -/
def SyncRequest.FromFetch : SyncRequest → Prop
  | .biModalUpdate .. => True
  | .biModeUpdate .. => False
  | .bruSpeculativeUpdate .. => False
  | .speculativeUpdate .. => True
  | .restore .. => True

namespace BranchPredictorSet

theorem sync_append (p : BranchPredictorSet) (l₁ l₂ : List SyncRequest) :
    p.sync (l₁ ++ l₂) = (p.sync l₁).sync l₂ := List.foldl_append

/-- **Fetch leaves the history of commit alone.** -/
theorem sync_fromFetch (p : BranchPredictorSet) {requests : List SyncRequest}
    (h : ∀ q ∈ requests, q.FromFetch) :
    (p.sync requests).biMode.globalHistoryRetired = p.biMode.globalHistoryRetired := by
  induction requests generalizing p with
  | nil => rfl
  | cons q requests ih =>
    rw [sync, List.foldl_cons, ← sync, ih _ fun q hq => h q (List.mem_cons_of_mem _ hq)]
    have hq := h q (List.mem_cons_self ..)
    cases q with
    | biModeUpdate => exact hq.elim
    | bruSpeculativeUpdate => exact hq.elim
    | biModalUpdate => rfl
    | speculativeUpdate => rfl
    | restore => rfl

end BranchPredictorSet

/-! ## Fetch -/

/-- The histories are the same in both. -/
structure BranchPredictorSet.SameHistories (p q : BranchPredictorSet) : Prop where
  global : q.biMode.globalHistory = p.biMode.globalHistory
  retired : q.biMode.globalHistoryRetired = p.biMode.globalHistoryRetired

theorem BranchPredictorSet.SameHistories.trans {p q s : BranchPredictorSet}
    (h : p.SameHistories q) (h' : q.SameHistories s) : p.SameHistories s :=
  ⟨h'.global.trans h.global, h'.retired.trans h.retired⟩

/-- Asking for a prediction changes no history. -/
theorem fetchWord_histories {cur : BranchPredictorSet} {i : Nat} {curPc opcode : Word}
    {st : FetchState} {res : FetchState × Bool}
    (h : fetchWord cur i curPc opcode st = some res) :
    st.predictors.SameHistories res.1.predictors := by
  obtain ⟨p, hp, rfl⟩ := Option.map_eq_some_iff.mp h
  have hsame := predictSwitch_biMode hp
  refine ⟨?_, ?_⟩
  · change p.predictors.biMode.globalHistory = _
    rw [hsame]
    rfl
  · change p.predictors.biMode.globalHistoryRetired = _
    rw [hsame]
    rfl

theorem fetchLoop_histories {cur : BranchPredictorSet} {idle : Bool} {oldPc : Word} {i : Nat}
    {words : List Word} {st st' : FetchState}
    (h : fetchLoop cur idle oldPc i words st = some st') :
    st.predictors.SameHistories st'.predictors := by
  induction words generalizing i st with
  | nil =>
    cases h
    exact ⟨rfl, rfl⟩
  | cons word words ih =>
    obtain ⟨res, hone, h⟩ := Option.bind_eq_some_iff.mp h
    have hsame : st.predictors.SameHistories res.1.predictors := by
      unfold fetchOne at hone
      dsimp only at hone
      split at hone
      · cases hone
        exact ⟨rfl, rfl⟩
      · exact fetchWord_histories hone
    split at h
    · exact hsame.trans (ih h)
    · cases h
      exact hsame

theorem historyUpdates_fromFetch (pack : List FetchOpInfo) :
    ∀ q ∈ historyUpdates pack, q.FromFetch := by
  intro q hq
  obtain ⟨_, -, rfl⟩ := List.mem_map.mp hq
  trivial

/-- **The first level** changes no history before the end of the cycle, and asks for nothing but
its own shifts. -/
theorem Fetch1.run_histories {f : Fetch1} {predictors : BranchPredictorSet} {inp : Fetch1Input}
    {res : Fetch1Result} (h : f.run predictors inp = some res) :
    predictors.SameHistories res.predictors ∧ ∀ q ∈ res.requests, q.FromFetch := by
  have hredirect : ∀ pc, predictors.SameHistories (f.redirect predictors pc).predictors
      ∧ ∀ q ∈ (f.redirect predictors pc).requests, q.FromFetch := fun pc =>
    ⟨⟨rfl, rfl⟩, fun q hq => by cases hq⟩
  unfold Fetch1.run at h
  split at h
  · split at h
    · cases h
      exact hredirect _
    · split at h
      · split at h
        · cases h
          exact hredirect _
        · cases h
      · cases h
        exact hredirect _
  · split at h
    · cases h
      exact hredirect _
    · split at h
      · cases h
        exact hredirect _
      · split at h
        · cases h
          exact hredirect _
        · obtain ⟨st, hst, rfl⟩ := Option.map_eq_some_iff.mp h
          refine ⟨?_, fun q hq => ?_⟩
          · unfold Fetch1.advance at hst
            split at hst
            · split at hst
              · cases hst
                exact ⟨rfl, rfl⟩
              · cases hst
                exact ⟨rfl, rfl⟩
            · split at hst
              · exact fetchLoop_histories hst
              · cases hst
                exact ⟨rfl, rfl⟩
          · dsimp only at hq
            split at hq
            · cases hq
            · exact historyUpdates_fromFetch _ q hq

theorem level2_fromFetch (biMode : BiMode) (i : Nat) (pack : List FetchOpInfo) :
    ∀ q ∈ (level2 biMode i pack).requests, q.FromFetch := by
  induction pack generalizing i with
  | nil => simp [level2]
  | cons q pack ih =>
    unfold level2
    split
    · intro req hreq
      simp only [List.mem_cons, List.not_mem_nil, or_false] at hreq
      rcases hreq with rfl | rfl <;> trivial
    · exact ih (i + 1)

/-- **The second level** asks for nothing but what undoes and redoes the shifts of fetch. -/
theorem Fetch2.run_fromFetch (f : Fetch2) (biMode : BiMode) (port : List FetchOpInfo) (room : Nat)
    (flush : Bool) : ∀ q ∈ (f.run biMode port room flush).requests, q.FromFetch := by
  unfold Fetch2.run
  split
  · intro q hq
    cases hq
  · split
    · simp [fetch2Push]
    · intro q hq
      rcases List.mem_append.mp hq with hq | hq
      · exact level2_fromFetch _ _ _ q hq
      · split at hq
        · exact historyUpdates_fromFetch _ q hq
        · cases hq

/-! ## A cycle -/

/-- **What a cycle does to the two histories**: the requests of the rest of the core come first,
and fetch does not touch the history of commit. -/
theorem Front.cycle_retired {s : Front} {inp : FrontInput} {res : FrontResult}
    (h : s.cycle inp = some res) : res.next.predictors.biMode.globalHistoryRetired
      = (res.fetch1.predictors.sync inp.requests).biMode.globalHistoryRetired
        ∧ s.predictors.SameHistories res.fetch1.predictors := by
  obtain ⟨r₁, h₁, rfl⟩ := Option.map_eq_some_iff.mp h
  obtain ⟨hsame, hfetch⟩ := Fetch1.run_histories h₁
  refine ⟨?_, hsame⟩
  dsimp only
  rw [List.append_assoc, BranchPredictorSet.sync_append]
  refine BranchPredictorSet.sync_fromFetch _ fun q hq => ?_
  rcases List.mem_append.mp hq with hq | hq
  · exact Fetch2.run_fromFetch _ _ _ _ _ q hq
  · exact hfetch q hq

/-- Under a flush fetch asks for nothing. -/
theorem Front.cycle_flushed {s : Front} {inp : FrontInput} {res : FrontResult}
    (h : s.cycle inp = some res) (hflush : inp.commit.flush = true ∨ inp.bru.flush = true) :
    res.next.predictors = res.fetch1.predictors.sync inp.requests := by
  obtain ⟨r₁, h₁, rfl⟩ := Option.map_eq_some_iff.mp h
  have hall : inp.flush = true := by
    rcases hflush with hf | hf <;> simp [FrontInput.flush, hf]
  have hnone : r₁.requests = [] := by
    unfold Fetch1.run fetch1Input at h₁
    dsimp only at h₁
    split at h₁
    · split at h₁
      · cases h₁
        rfl
      · split at h₁
        · split at h₁
          · cases h₁
            rfl
          · cases h₁
        · cases h₁
          rfl
    · rename_i hno
      rcases hflush with hf | hf
      · exact absurd hf hno
      · rw [if_pos hf] at h₁
        cases h₁
        rfl
  dsimp only
  rw [hnone, hall, Fetch2.run, if_pos rfl, List.append_nil, List.append_nil]

end DreamCore
