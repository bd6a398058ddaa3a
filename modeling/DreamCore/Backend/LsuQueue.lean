import DreamCore.Lib.Ages
import DreamCore.Lib.Loops
import DreamCore.Pipeline.LsuIssue

/-!
# One cycle of the LSU issue queue

What `run_output` and `run_wakeup` do to one slot, and what the slot of an
instruction that enters looks like. The two searches for a store are answered
here as well: among stores that are all in the ROB, the loop over the slots ends
with the oldest one, or the youngest.
-/

namespace DreamCore

open Ring Loops

namespace LsuIssue

variable {s new : LsuIssue} {inp : LsuIssueInput} {i j : Nat}

/-! ## What the output stage does to a slot -/

theorem selected_candidate (h : s.selected inp i = some j) : s.candidate inp i j = true :=
  (Pick.pick_mem h).2

theorem selected_awake (h : s.selected inp i = some j) : s.awake inp j = true := by
  have hc := selected_candidate h
  unfold candidate at hc
  split at hc <;> simp only [Bool.and_eq_true] at hc <;> exact hc.1.1.1

theorem selected_zero (h : s.selected inp 0 = some j) : (s.entry j).isStore = false := by
  have hc := selected_candidate h
  simp only [candidate, Bool.and_eq_true, Bool.not_eq_true'] at hc
  exact hc.1.1.2

theorem issue_other (new : LsuIssue) (h : s.selected inp i ≠ some j) :
    (s.issue inp new i).entry j = new.entry j ∧ (s.issue inp new i).valid j = new.valid j ∧
      (s.issue inp new i).issued j = new.issued j := by
  unfold issue
  split
  · rename_i k hk
    have hjk : j ≠ k := fun hjk => h (hjk ▸ hk)
    refine ⟨Function.update_of_ne hjk _ _, ?_, Function.update_of_ne hjk _ _⟩
    dsimp only
    split
    · exact Function.update_of_ne hjk _ _
    · rfl
  · exact ⟨rfl, rfl, rfl⟩

theorem issue_self (new : LsuIssue) (h : s.selected inp i = some j) :
    (s.issue inp new i).entry j = { new.entry j with curLpv := (s.entry j).lpv } ∧
      ((s.issue inp new i).valid j = true → new.valid j = true) ∧
      ((s.issue inp new i).valid j = false → new.valid j = false ∨ s.lastUop inp i j = true) ∧
      (s.issue inp new i).issued j = s.lastUop inp i j := by
  unfold issue
  rw [h]
  refine ⟨Function.update_self .., ?_, ?_, Function.update_self ..⟩
  · dsimp only
    split
    · rw [Function.update_self]
      exact fun hf => absurd hf (by decide)
    · exact id
  · dsimp only
    split
    · rename_i hpop
      simp only [Bool.and_eq_true] at hpop
      exact fun _ => .inr hpop.1.1
    · exact .inl

theorem markParts_entry (s new : LsuIssue) (inp : LsuIssueInput) (j : Nat) :
    (s.markParts inp new).entry j =
      { new.entry j with
        sauPartIssued := (new.entry j).sauPartIssued || s.selected inp 1 == some j
        sduPartIssued := (new.entry j).sduPartIssued || s.selected inp 2 == some j } := rfl

/-- Slot `j` is as it was, but for `cur_lpv`; it is given up only when it is selected for the last
time. -/
structure Touched (s : LsuIssue) (inp : LsuIssueInput) (new : LsuIssue) (j : Nat) : Prop where
  entry : ∃ curLpv, (curLpv = (s.entry j).curLpv ∨ curLpv = (s.entry j).lpv) ∧
    new.entry j = { s.entry j with curLpv := curLpv }
  valid : new.valid j = true → s.valid j = true
  popped : s.valid j = true → new.valid j = false →
    ∃ i, i < lsuIssueWidth ∧ s.selected inp i = some j ∧ s.lastUop inp i j = true

theorem Touched.issue (h : Touched s inp new j) (hi : i < lsuIssueWidth) :
    Touched s inp (s.issue inp new i) j := by
  obtain ⟨⟨curLpv, hcur, hentry⟩, hvalid, hpopped⟩ := h
  by_cases hsel : s.selected inp i = some j
  · obtain ⟨hentry', hvalid', hpopped', -⟩ := issue_self new hsel
    rw [hentry] at hentry'
    refine ⟨⟨_, .inr rfl, hentry'⟩, fun h => hvalid (hvalid' h), fun hv hgone => ?_⟩
    rcases hpopped' hgone with hgone | hlast
    · exact hpopped hv hgone
    · exact ⟨i, hi, hsel, hlast⟩
  · obtain ⟨hentry', hvalid', -⟩ := issue_other new hsel
    rw [← hvalid'] at hvalid hpopped
    exact ⟨⟨curLpv, hcur, hentry'.trans hentry⟩, hvalid, hpopped⟩

/-- The ports one after another. -/
theorem touched_ports (s : LsuIssue) (inp : LsuIssueInput) (j : Nat) :
    Touched s inp ((List.range lsuIssueWidth).foldl (s.issue inp) s) j := by
  have hstart : Touched s inp s j := by
    refine ⟨⟨_, .inl rfl, rfl⟩, id, fun hv hgone => ?_⟩
    rw [hv] at hgone
    cases hgone
  exact ((hstart.issue (i := 0) (by decide)).issue (i := 1) (by decide)).issue (i := 2) (by decide)

/-- The stage issues in this cycle. -/
def active (inp : LsuIssueInput) : Bool :=
  !(inp.commitFlush || inp.readregStall || inp.lu.stall)

/-- What `run_output` does to slot `j`. -/
structure Output (s : LsuIssue) (inp : LsuIssueInput) (out : LsuIssue) (j : Nat) : Prop where
  entry : ∃ curLpv, (curLpv = (s.entry j).curLpv ∨ curLpv = (s.entry j).lpv) ∧ out.entry j =
    { s.entry j with
      curLpv := curLpv
      sauPartIssued := (s.entry j).sauPartIssued || active inp && s.selected inp 1 == some j
      sduPartIssued := (s.entry j).sduPartIssued || active inp && s.selected inp 2 == some j }
  valid : out.valid j = true → s.valid j = true
  /-- What has issued is not touched. -/
  kept : s.issued j = true →
    out.issued j = true ∧ out.entry j = s.entry j ∧ out.valid j = s.valid j
  /-- What issues is selected for the last time. -/
  selects : s.issued j = false → out.issued j = true ∨ s.valid j = true ∧ out.valid j = false →
    active inp = true ∧
      ∃ i, i < lsuIssueWidth ∧ s.selected inp i = some j ∧ s.lastUop inp i j = true

/-- A store that is selected for the last time has sent its address. -/
theorem lastUop_address (h : s.selected inp i = some j) (hi : i < lsuIssueWidth)
    (hstore : (s.entry j).isStore = true) (hlast : s.lastUop inp i j = true) :
    ((s.entry j).sauPartIssued || s.selected inp 1 == some j) = true := by
  have hi' : i = 0 ∨ i = 1 ∨ i = 2 := by
    unfold lsuIssueWidth at hi
    omega
  rcases hi' with rfl | rfl | rfl
  · rw [selected_zero h] at hstore
    cases hstore
  · rw [h]
    simp
  · exact hlast

theorem runOutput_slot (s : LsuIssue) (inp : LsuIssueInput) (j : Nat) :
    Output s inp (s.runOutput inp).1 j := by
  unfold runOutput
  split
  · rename_i hidle
    have hactive : active inp = false := by rw [active, hidle, Bool.not_true]
    refine ⟨⟨_, .inl rfl, by simp [hactive]⟩, id, fun h => ⟨h, rfl, rfl⟩, fun h h' => ?_⟩
    rcases h' with h' | ⟨hv, hgone⟩
    · rw [h] at h'
      cases h'
    · rw [hv] at hgone
      cases hgone
  · rename_i hidle
    have hactive : active inp = true := by rw [active, Bool.eq_false_iff.mpr hidle, Bool.not_false]
    have hrange : (List.range lsuIssueWidth).foldl (s.issue inp) s
        = s.issue inp (s.issue inp (s.issue inp s 0) 1) 2 := rfl
    obtain ⟨⟨curLpv, hcur, hentry⟩, hvalid, hpopped⟩ := touched_ports s inp j
    dsimp only
    rw [hrange] at hentry hvalid hpopped ⊢
    refine ⟨⟨curLpv, hcur, ?_⟩, hvalid, fun hissued => ?_, fun hissued hnew => ⟨hactive, ?_⟩⟩
    · rw [markParts_entry, hentry, hactive, Bool.true_and, Bool.true_and]
    · have hnone (i : Nat) : s.selected inp i ≠ some j := by
        intro hsel
        have := selected_awake hsel
        simp [awake, hissued] at this
      obtain ⟨he₂, hv₂, hi₂⟩ := issue_other (s.issue inp (s.issue inp s 0) 1) (hnone 2)
      obtain ⟨he₁, hv₁, hi₁⟩ := issue_other (s.issue inp s 0) (hnone 1)
      obtain ⟨he₀, hv₀, hi₀⟩ := issue_other s (hnone 0)
      refine ⟨?_, ?_, ?_⟩
      · change (s.issue inp (s.issue inp (s.issue inp s 0) 1) 2).issued j = true
        rw [hi₂, hi₁, hi₀, hissued]
      · rw [markParts_entry, he₂, he₁, he₀, beq_false_of_ne (hnone 1), beq_false_of_ne (hnone 2)]
        simp only [Bool.or_false]
      · exact hv₂.trans (hv₁.trans hv₀)
    · change (s.issue inp (s.issue inp (s.issue inp s 0) 1) 2).issued j = true ∨
        s.valid j = true ∧ (s.issue inp (s.issue inp (s.issue inp s 0) 1) 2).valid j = false at hnew
      rcases hnew with hnew | ⟨hv, hgone⟩
      · by_cases h₂ : s.selected inp 2 = some j
        · rw [(issue_self _ h₂).2.2.2] at hnew
          exact ⟨2, by decide, h₂, hnew⟩
        · rw [(issue_other _ h₂).2.2] at hnew
          by_cases h₁ : s.selected inp 1 = some j
          · rw [(issue_self _ h₁).2.2.2] at hnew
            exact ⟨1, by decide, h₁, hnew⟩
          · rw [(issue_other _ h₁).2.2] at hnew
            by_cases h₀ : s.selected inp 0 = some j
            · rw [(issue_self _ h₀).2.2.2] at hnew
              exact ⟨0, by decide, h₀, hnew⟩
            · rw [(issue_other _ h₀).2.2, hissued] at hnew
              cases hnew
      · exact hpopped hv hgone

/-- What issues has sent its address, and does not hang on the load that is replayed. -/
theorem Output.issues {out : LsuIssue} (h : Output s inp out j) (hissued : s.issued j = false)
    (hstore : (s.entry j).isStore = true)
    (hnew : out.issued j = true ∨ s.valid j = true ∧ out.valid j = false) :
    (out.entry j).sauPartIssued = true ∧ (inp.lu.replay && (s.entry j).atRisk) = false := by
  obtain ⟨hactive, i, hi, hsel, hlast⟩ := h.selects hissued hnew
  have hawake := selected_awake hsel
  simp only [awake, Bool.and_eq_true, Bool.not_eq_true'] at hawake
  refine ⟨?_, hawake.1.1.2⟩
  obtain ⟨_, -, hentry⟩ := h.entry
  rw [hentry, hactive, Bool.true_and]
  exact lastUop_address hsel hi hstore hlast

/-- A store that is selected for the last time has issued. -/
theorem runOutput_issued (hactive : active inp = true) (hi : i = 1 ∨ i = 2)
    (hsel : s.selected inp i = some j) (hlast : s.lastUop inp i j = true) :
    (s.runOutput inp).1.issued j = true := by
  unfold runOutput
  rw [active, Bool.not_eq_true'] at hactive
  rw [hactive, if_neg (by decide)]
  change (s.issue inp (s.issue inp (s.issue inp s 0) 1) 2).issued j = true
  rcases hi with rfl | rfl
  · have hne : s.selected inp 2 ≠ some j := by
      intro h₂
      have hc := selected_candidate h₂
      rw [lastUop] at hlast
      simp [candidate, hlast] at hc
    rw [(issue_other _ hne).2.2, (issue_self _ hsel).2.2.2]
    exact hlast
  · rw [(issue_self _ hsel).2.2.2]
    exact hlast

/-! ## What the wakeup stage does to a slot -/

variable {cur out new' : LsuIssue} {lsu : List LsuWakeupChannel} {store : Option Ptr} {k n : Nat}

theorem wakeEntry_eq_some {issued : Bool} {e e' : LsuEntry}
    (h : wakeEntry inp lsu store issued e = some e') :
    ∃ src1 src2 curLpv sdu ready, e' =
      { e with
        src1 := src1
        src2 := src2
        curLpv := curLpv
        sauPartIssued := e.sauPartIssued && !(inp.lu.replay && e.isStore && e.atRisk)
        sduPartIssued := sdu
        waitingIssueIdReady := ready
        waitingStore := e.waitingStore && !e.released store } := by
  unfold wakeEntry at h
  simp only [Option.bind_eq_bind, Option.bind_eq_some_iff] at h
  obtain ⟨src1, -, src2, -, h⟩ := h
  exact ⟨src1, src2, _, _, _, (Option.some.inj h).symm⟩

/-- The slot is as it was. -/
structure SameSlot (out new : LsuIssue) (j : Nat) : Prop where
  entry : new.entry j = out.entry j
  valid : new.valid j = out.valid j
  issued : new.issued j = out.issued j

/-- What `run_wakeup` does to slot `j`. -/
structure Wakeup (cur : LsuIssue) (inp : LsuIssueInput) (lsu : List LsuWakeupChannel)
    (store : Option Ptr) (out new : LsuIssue) (j : Nat) : Prop where
  entry : ∃ src1 src2 curLpv sau sdu ready waiting, new.entry j =
    { out.entry j with
      src1 := src1
      src2 := src2
      curLpv := curLpv
      sauPartIssued := sau
      sduPartIssued := sdu
      waitingIssueIdReady := ready
      waitingStore := waiting }
  valid : new.valid j = true → out.valid j = true
  squashed : cur.valid j = true → inp.squashes (out.entry j).item.robId = true →
    new.valid j = false ∧ new.issued j = out.issued j
  issued : cur.valid j = true → inp.squashes (out.entry j).item.robId = false →
    new.issued j = (out.issued j && !(cur.issued j && (out.entry j).replays inp.lu))
  address : cur.valid j = true → inp.squashes (out.entry j).item.robId = false →
    (new.entry j).sauPartIssued = ((out.entry j).sauPartIssued
      && !(inp.lu.replay && (out.entry j).isStore && (out.entry j).atRisk))
  waiting : cur.valid j = true → inp.squashes (out.entry j).item.robId = false →
    (new.entry j).waitingStore = ((out.entry j).waitingStore && !(out.entry j).released store)
  leaves : cur.valid j = true → inp.squashes (out.entry j).item.robId = false →
    out.valid j = true → new.valid j = false →
      cur.issued j = true ∧ (out.entry j).replays inp.lu = false
  woken : cur.valid j = true → inp.squashes (out.entry j).item.robId = false →
    wakeEntry inp lsu store (cur.issued j) (out.entry j) = some (new.entry j)
  stays : cur.valid j = true → inp.squashes (out.entry j).item.robId = false →
    cur.issued j = true → (out.entry j).replays inp.lu = false → new.valid j = true →
      (out.entry j).certain inp.lu = false

theorem wakeSlot_other (h : cur.wakeSlot inp lsu store new k = some new') (hjk : j ≠ k) :
    SameSlot new new' j := by
  unfold wakeSlot at h
  split at h
  · obtain rfl := Option.some.inj h
    exact ⟨rfl, rfl, rfl⟩
  · split at h
    · obtain rfl := Option.some.inj h
      exact ⟨rfl, Function.update_of_ne hjk _ _, rfl⟩
    · simp only [Option.bind_eq_bind, Option.bind_eq_some_iff] at h
      obtain ⟨e, -, h⟩ := h
      obtain rfl := Option.some.inj h
      refine ⟨Function.update_of_ne hjk _ _, ?_, ?_⟩
      · dsimp only
        split
        · exact Function.update_of_ne hjk _ _
        · rfl
      · dsimp only
        split
        · exact Function.update_of_ne hjk _ _
        · rfl

theorem wakeSlot_self (h : cur.wakeSlot inp lsu store new j = some new') :
    Wakeup cur inp lsu store new new' j := by
  unfold wakeSlot at h
  split at h
  · rename_i hvalid
    obtain rfl := Option.some.inj h
    rw [Bool.not_eq_true'] at hvalid
    have hno {P : Prop} (hcur : cur.valid j = true) : P := by
      rw [hvalid] at hcur
      cases hcur
    exact ⟨⟨_, _, _, _, _, _, _, rfl⟩, id, fun hcur => hno hcur, fun hcur => hno hcur,
      fun hcur => hno hcur, fun hcur => hno hcur, fun hcur => hno hcur, fun hcur => hno hcur,
      fun hcur => hno hcur⟩
  · split at h
    · rename_i hsquashed
      obtain rfl := Option.some.inj h
      have hno {P : Prop} (hkeep : inp.squashes (new.entry j).item.robId = false) : P := by
        rw [hkeep] at hsquashed
        cases hsquashed
      refine ⟨⟨_, _, _, _, _, _, _, rfl⟩, fun hv => ?_, fun _ _ => ⟨Function.update_self .., rfl⟩,
        fun _ hkeep => hno hkeep, fun _ hkeep => hno hkeep, fun _ hkeep => hno hkeep,
        fun _ hkeep => hno hkeep, fun _ hkeep => hno hkeep, fun _ hkeep => hno hkeep⟩
      change Function.update new.valid j false j = true at hv
      rw [Function.update_self] at hv
      cases hv
    · rename_i hkeep
      simp only [Option.bind_eq_bind, Option.bind_eq_some_iff] at h
      obtain ⟨e, he, h⟩ := h
      obtain rfl := Option.some.inj h
      obtain ⟨src1, src2, curLpv, sdu, ready, heq⟩ := wakeEntry_eq_some he
      refine ⟨⟨src1, src2, curLpv, _, sdu, ready, _, (Function.update_self ..).trans heq⟩,
        fun hv => ?_, fun _ hsquashed => absurd hsquashed hkeep, fun _ _ => ?_, fun _ _ => ?_,
        fun _ _ => ?_, fun _ _ hv hgone => ?_, fun _ _ => ?_, fun _ _ hissued hno hv => ?_⟩
      · dsimp only at hv
        split at hv
        · rw [Function.update_self] at hv
          cases hv
        · exact hv
      · dsimp only
        cases cur.issued j && (new.entry j).replays inp.lu with
        | true =>
          rw [if_pos rfl, Function.update_self]
          simp
        | false =>
          rw [if_neg (by decide)]
          simp
      · dsimp only
        rw [Function.update_self, heq]
      · dsimp only
        rw [Function.update_self, heq]
      · dsimp only at hgone
        split at hgone
        · rename_i hleaves
          simp only [Bool.and_eq_true, Bool.not_eq_true', Bool.and_eq_false_iff] at hleaves
          obtain ⟨⟨hissued, hreplays⟩, -⟩ := hleaves
          refine ⟨hissued, hreplays.resolve_left ?_⟩
          rw [hissued]
          decide
        · rw [hv] at hgone
          cases hgone
      · dsimp only
        rw [Function.update_self]
        exact he
      · dsimp only at hv
        rw [hissued, hno] at hv
        by_contra hcertain
        rw [if_pos (by simpa using hcertain), Function.update_self] at hv
        cases hv

theorem wakeSlots_slot (h : (List.range n).foldlM (cur.wakeSlot inp lsu store) out = some new)
    (j : Nat) : (n ≤ j → SameSlot out new j) ∧ (j < n → Wakeup cur inp lsu store out new j) := by
  induction n generalizing new with
  | zero =>
    obtain rfl := Option.some.inj h
    exact ⟨fun _ => ⟨rfl, rfl, rfl⟩, fun hj => absurd hj (Nat.not_lt_zero j)⟩
  | succ n ih =>
    rw [foldlM_range_succ] at h
    obtain ⟨mid, hmid, hlast⟩ := Option.bind_eq_some_iff.mp h
    obtain ⟨hrest, hdone⟩ := ih hmid
    by_cases hjn : j = n
    · -- the slots before this one have not touched it
      obtain rfl := hjn
      obtain ⟨he, hv, hi⟩ := hrest (Nat.le_refl j)
      have hself := wakeSlot_self hlast
      refine ⟨fun hle => absurd hle (by omega), fun _ => ?_⟩
      obtain ⟨h₁, h₂, h₃, h₄, h₅, h₆, h₇, h₈, h₉⟩ := hself
      rw [he] at h₁ h₃ h₄ h₅ h₆ h₇ h₈ h₉
      rw [hv] at h₂ h₇
      rw [hi] at h₃ h₄
      exact ⟨h₁, h₂, h₃, h₄, h₅, h₆, h₇, h₈, h₉⟩
    · obtain ⟨he, hv, hi⟩ := wakeSlot_other hlast hjn
      refine ⟨fun hle => ?_, fun hlt => ?_⟩
      · obtain ⟨he', hv', hi'⟩ := hrest (by omega)
        exact ⟨he.trans he', hv.trans hv', hi.trans hi'⟩
      · obtain ⟨h₁, h₂, h₃, h₄, h₅, h₆, h₇, h₈, h₉⟩ := hdone (by omega)
        rw [← he] at h₁ h₅ h₆ h₈
        rw [← hv] at h₂ h₃ h₇ h₉
        rw [← hi] at h₃ h₄
        exact ⟨h₁, h₂, h₃, h₄, h₅, h₆, h₇, h₈, h₉⟩

/-! ## The two stages together -/

/-- What `run_output` and `run_wakeup` do to slot `j`, with no commit flush. -/
structure Woken (s : LsuIssue) (inp : LsuIssueInput) (new : LsuIssue) (j : Nat) : Prop where
  item : (new.entry j).item = (s.entry j).item
  robId : (new.entry j).robId = (s.entry j).robId
  isStore : (new.entry j).isStore = (s.entry j).isStore
  awaited : (new.entry j).waitingStoreRobId = (s.entry j).waitingStoreRobId
  lpv : (new.entry j).lpv = (s.entry j).lpv
  wakeupShift : (new.entry j).wakeupShift = (s.entry j).wakeupShift
  valid : new.valid j = true →
    s.valid j = true ∧ inp.squashes (s.entry j).item.robId = false
  reissues : new.valid j = true → new.issued j = false →
    s.issued j = false ∨ s.issued j = true ∧ (s.entry j).replays inp.lu = true
  /-- A store that has issued, or leaves the queue without being squashed, has sent its address. -/
  address : s.valid j = true → inp.squashes (s.entry j).item.robId = false →
    (s.entry j).isStore = true → (s.issued j = true → (s.entry j).sauPartIssued = true) →
      new.issued j = true ∨ new.valid j = false → (new.entry j).sauPartIssued = true
  waiting : s.valid j = true → inp.squashes (s.entry j).item.robId = false →
    (new.entry j).waitingStore
      = ((s.entry j).waitingStore && !(s.entry j).released (s.oldestStore s))

theorem oldestStore_runOutput (s : LsuIssue) (inp : LsuIssueInput) :
    s.oldestStore (s.runOutput inp).1 = s.oldestStore s := by
  have hitem (j : Nat) : ((s.runOutput inp).1.entry j).item = (s.entry j).item := by
    obtain ⟨_, -, h⟩ := (runOutput_slot s inp j).entry
    rw [h]
  have hstore (j : Nat) : ((s.runOutput inp).1.entry j).isStore = (s.entry j).isStore := by
    obtain ⟨_, -, h⟩ := (runOutput_slot s inp j).entry
    rw [h]
  unfold oldestStore
  have hfound : s.unissuedStore (s.runOutput inp).1 = s.unissuedStore s := by
    funext j
    rw [unissuedStore, hstore, unissuedStore]
  simp only [hitem, hfound]

/-- The first two stages do not touch what is held back. -/
theorem woken_held (h : s.woken inp = some new) :
    new.busy = s.busy ∧ new.holdRevPack = s.holdRevPack := by
  have hissue (a : LsuIssue) (i : Nat) : (s.issue inp a i).busy = a.busy ∧
      (s.issue inp a i).holdRevPack = a.holdRevPack := by
    unfold issue
    split <;> exact ⟨rfl, rfl⟩
  have hout : (s.runOutput inp).1.busy = s.busy ∧
      (s.runOutput inp).1.holdRevPack = s.holdRevPack := by
    unfold runOutput
    split
    · exact ⟨rfl, rfl⟩
    · have hrange : (List.range lsuIssueWidth).foldl (s.issue inp) s
          = s.issue inp (s.issue inp (s.issue inp s 0) 1) 2 := rfl
      rw [hrange]
      obtain ⟨hb₂, hh₂⟩ := hissue (s.issue inp (s.issue inp s 0) 1) 2
      obtain ⟨hb₁, hh₁⟩ := hissue (s.issue inp s 0) 1
      obtain ⟨hb₀, hh₀⟩ := hissue s 0
      exact ⟨hb₂.trans (hb₁.trans hb₀), hh₂.trans (hh₁.trans hh₀)⟩
  unfold woken runWakeup at h
  split at h
  · obtain rfl := Option.some.inj h
    exact hout
  · generalize List.range lsuIssueQueueSize = l at h
    generalize s.oldestStore (s.runOutput inp).1 = store at h
    refine Loops.foldlM_invariant (P := fun new => new.busy = s.busy ∧
      new.holdRevPack = s.holdRevPack) h hout fun j _ new new' hnew hwake => ?_
    unfold wakeSlot at hwake
    split at hwake
    · obtain rfl := Option.some.inj hwake
      exact hnew
    · split at hwake
      · obtain rfl := Option.some.inj hwake
        exact hnew
      · simp only [Option.bind_eq_bind, Option.bind_eq_some_iff] at hwake
        obtain ⟨e, -, hwake⟩ := hwake
        obtain rfl := Option.some.inj hwake
        exact hnew

theorem woken_valid (h : s.woken inp = some new) (hflush : inp.commitFlush = false) {j : Nat}
    (hv : new.valid j = true) : s.valid j = true := by
  unfold woken runWakeup at h
  rw [if_neg (by rw [hflush]; decide)] at h
  refine (runOutput_slot s inp j).valid ?_
  by_cases hj : j < lsuIssueQueueSize
  · exact ((wakeSlots_slot h j).2 hj).valid hv
  · rw [← ((wakeSlots_slot h j).1 (by omega)).valid]
    exact hv

theorem woken_slot (h : s.woken inp = some new) (hflush : inp.commitFlush = false)
    (hj : j < lsuIssueQueueSize) : Woken s inp new j := by
  unfold woken runWakeup at h
  rw [if_neg (by rw [hflush]; decide), oldestStore_runOutput] at h
  have hwake := (wakeSlots_slot h j).2 hj
  have hout := runOutput_slot s inp j
  obtain ⟨curLpv, -, hentry⟩ := hout.entry
  obtain ⟨src1, src2, curLpv', sau', sdu', ready, waiting, hentry'⟩ := hwake.entry
  have hitem : ((s.runOutput inp).1.entry j).item = (s.entry j).item := by rw [hentry]
  have hlive : new.valid j = true →
      s.valid j = true ∧ inp.squashes (s.entry j).item.robId = false := by
    intro hv
    refine ⟨hout.valid (hwake.valid hv), ?_⟩
    cases hsq : inp.squashes (s.entry j).item.robId with
    | false => rfl
    | true =>
      rw [(hwake.squashed (hout.valid (hwake.valid hv)) (by rw [hitem, hsq])).1] at hv
      cases hv
  refine ⟨?_, ?_, ?_, ?_, ?_, ?_, hlive, fun hv hnew => ?_, fun hv hkeep hstore haddr hdone => ?_,
    fun hv hkeep => ?_⟩
  · rw [hentry', hentry]
  · rw [hentry', hentry]
  · rw [hentry', hentry]
  · rw [hentry', hentry]
  · rw [hentry', hentry]
  · rw [hentry', hentry]
  · cases hs : s.issued j with
    | false => exact .inl rfl
    | true =>
      obtain ⟨hkept, hsame, -⟩ := hout.kept hs
      rw [hwake.issued (hlive hv).1 (by rw [hitem]; exact (hlive hv).2), hkept, hs, hsame] at hnew
      exact .inr ⟨rfl, by simpa using hnew⟩
  · rw [← hitem] at hkeep
    rw [hwake.address hv hkeep]
    have hissued := hwake.issued hv hkeep
    cases hs : s.issued j with
    | false =>
      have hleft : (s.runOutput inp).1.issued j = true ∨
          s.valid j = true ∧ (s.runOutput inp).1.valid j = false := by
        rcases hdone with hnew | hgone
        · rw [hissued, Bool.and_eq_true] at hnew
          exact .inl hnew.1
        · cases hov : (s.runOutput inp).1.valid j with
          | false => exact .inr ⟨hv, rfl⟩
          | true =>
            have := (hwake.leaves hv hkeep hov hgone).1
            rw [hs] at this
            cases this
      obtain ⟨hsent, hsafe⟩ := hout.issues hs hstore hleft
      have hrisk : ((s.runOutput inp).1.entry j).atRisk = (s.entry j).atRisk := by
        rw [hentry]
        rfl
      rw [hsent, hrisk, Bool.and_right_comm, hsafe]
      rfl
    | true =>
      -- a replay of this entry would have made it not issued, and would have kept it
      obtain ⟨-, hsame, hsameValid⟩ := hout.kept hs
      have hno : (s.entry j).replays inp.lu = false := by
        rcases hdone with hnew | hgone
        · rw [hissued, hs, hsame, Bool.true_and, Bool.and_eq_true, Bool.not_eq_true'] at hnew
          exact hnew.2
        · have := (hwake.leaves hv hkeep (hsameValid.trans hv) hgone).2
          rw [hsame] at this
          exact this
      rw [hsame, haddr hs, Bool.true_and, Bool.not_eq_true']
      unfold LsuEntry.replays at hno
      cases hr : inp.lu.replay with
      | false => rfl
      | true =>
        rw [hr, Bool.true_and, Bool.or_eq_false_iff] at hno
        rw [hno.1]
        simp
  · rw [hwake.waiting hv (by rw [hitem]; exact hkeep), hentry]
    rfl

/-- **A slot has sent its address** when it had, and no replay takes that back, or when it does. -/
theorem woken_address (h : s.woken inp = some new) (hflush : inp.commitFlush = false)
    (hj : j < lsuIssueQueueSize) (hv : s.valid j = true)
    (hkeep : inp.squashes (s.entry j).item.robId = false) (hstore : (s.entry j).isStore = true) :
    (new.entry j).sauPartIssued
      = (((s.entry j).sauPartIssued || active inp && s.selected inp 1 == some j)
        && !(inp.lu.replay && (s.entry j).atRisk)) := by
  unfold woken runWakeup at h
  rw [if_neg (by rw [hflush]; decide), oldestStore_runOutput] at h
  have hwake := (wakeSlots_slot h j).2 hj
  obtain ⟨curLpv, -, hentry⟩ := (runOutput_slot s inp j).entry
  have hitem : ((s.runOutput inp).1.entry j).item = (s.entry j).item := by rw [hentry]
  rw [hwake.address hv (by rw [hitem, hkeep]), hentry]
  dsimp only
  rw [hstore, Bool.and_true]
  rfl

/-- **A slot has issued** when it had, and no replay takes that back, or when it does. -/
theorem woken_issued (h : s.woken inp = some new) (hflush : inp.commitFlush = false)
    (hj : j < lsuIssueQueueSize) (hv : s.valid j = true)
    (hkeep : inp.squashes (s.entry j).item.robId = false) (hactive : active inp = true)
    (hi : i = 1 ∨ i = 2) (hsel : s.selected inp i = some j) (hlast : s.lastUop inp i j = true) :
    new.issued j = true := by
  unfold woken runWakeup at h
  rw [if_neg (by rw [hflush]; decide), oldestStore_runOutput] at h
  have hwake := (wakeSlots_slot h j).2 hj
  obtain ⟨curLpv, -, hentry⟩ := (runOutput_slot s inp j).entry
  have hitem : ((s.runOutput inp).1.entry j).item = (s.entry j).item := by rw [hentry]
  have hfirst : s.issued j = false := by
    have hawake := selected_awake hsel
    simp only [awake, Bool.and_eq_true, Bool.not_eq_true'] at hawake
    exact hawake.1.2
  rw [hwake.issued hv (by rw [hitem, hkeep]), runOutput_issued hactive hi hsel hlast, hfirst]
  rfl

/-- **What the two stages write to a slot** that no flush squashes. -/
structure Rewritten (s : LsuIssue) (inp : LsuIssueInput) (new : LsuIssue) (j : Nat) : Prop where
  entry : wakeEntry inp (s.runOutput inp).2.2 (s.oldestStore s) (s.issued j)
    ((s.runOutput inp).1.entry j) = some (new.entry j)
  issued : new.issued j =
    ((s.runOutput inp).1.issued j && !(s.issued j && (s.entry j).replays inp.lu))
  stays : s.issued j = true → (s.entry j).replays inp.lu = false → new.valid j = true →
    (s.entry j).certain inp.lu = false

theorem woken_rewritten (h : s.woken inp = some new) (hflush : inp.commitFlush = false)
    (hj : j < lsuIssueQueueSize) (hv : s.valid j = true)
    (hkeep : inp.squashes (s.entry j).item.robId = false) : Rewritten s inp new j := by
  unfold woken runWakeup at h
  rw [if_neg (by rw [hflush]; decide), oldestStore_runOutput] at h
  have hwake := (wakeSlots_slot h j).2 hj
  have hout := runOutput_slot s inp j
  have hkeep : inp.squashes ((s.runOutput inp).1.entry j).item.robId = false := by
    obtain ⟨_, -, hentry⟩ := hout.entry
    rw [hentry]
    exact hkeep
  refine ⟨hwake.woken hv hkeep, ?_, fun hissued hno hnew => ?_⟩
  · rw [hwake.issued hv hkeep]
    cases hissued : s.issued j with
    | false => rfl
    | true => rw [(hout.kept hissued).2.1]
  · have hsame := (hout.kept hissued).2.1
    have := hwake.stays hv hkeep hissued
    rw [hsame] at this
    exact this hno hnew

/-! ## The two searches -/

variable {base : Nat}

theorem unissuedStore_valid {k : Nat} (h : cur.unissuedStore new k = true) :
    cur.valid k = true := by
  simp only [unissuedStore, Bool.and_eq_true] at h
  exact h.1.1

theorem unissuedStore_isStore {k : Nat} (h : cur.unissuedStore new k = true) :
    (new.entry k).isStore = true := by
  simp only [unissuedStore, Bool.and_eq_true] at h
  exact h.2

/-- What the search for the oldest store that has not issued ends with. -/
theorem oldestStore_spec
    (hin : ∀ k, s.valid k = true → (s.entry k).item.robId.Within robSize base) :
    (s.oldestStore s = none → ∀ k, k < lsuIssueQueueSize → s.unissuedStore s k = false) ∧
      ∀ r, s.oldestStore s = some r →
        (∃ o, s.unissuedStore s o = true ∧ r = (s.entry o).item.robId) ∧
          ∀ k, k < lsuIssueQueueSize → s.unissuedStore s k = true →
            r.younger (s.entry k).item.robId = false := by
  have hcand : ∀ k ∈ List.range lsuIssueQueueSize, s.unissuedStore s k = true →
      (s.entry k).item.robId.Within robSize base := by
    intro k _ hk
    exact hin k (unissuedStore_valid hk)
  obtain ⟨hsome, hnone⟩ := Ptr.pick_oldest hcand
  unfold oldestStore
  refine ⟨fun h k hk => ?_, fun r h => ?_⟩
  · exact hnone (Option.map_eq_none_iff.mp h) k (List.mem_range.mpr hk)
  · obtain ⟨o, ho, rfl⟩ := Option.map_eq_some_iff.mp h
    refine ⟨⟨o, (Pick.pick_mem ho).2, rfl⟩, fun k hk hun => ?_⟩
    exact hsome o ho k (List.mem_range.mpr hk) hun

/-- What the search for the youngest store that has not issued ends with. -/
theorem youngestStore_spec
    (hin : ∀ k, cur.valid k = true → (new.entry k).robId.Within robSize base) :
    (cur.youngestStore new = none → ∀ k, k < lsuIssueQueueSize →
        cur.unissuedStore new k = false) ∧
      ∀ r, cur.youngestStore new = some r →
        (∃ o, cur.unissuedStore new o = true ∧ r = (new.entry o).robId) ∧
          ∀ k, k < lsuIssueQueueSize → cur.unissuedStore new k = true →
            (new.entry k).robId.younger r = false := by
  have hcand : ∀ k ∈ List.range lsuIssueQueueSize, cur.unissuedStore new k = true →
      (new.entry k).robId.Within robSize base := by
    intro k _ hk
    exact hin k (unissuedStore_valid hk)
  obtain ⟨hsome, hnone⟩ := Ptr.pick_youngest hcand
  unfold youngestStore older
  refine ⟨fun h k hk => ?_, fun r h => ?_⟩
  · exact hnone (Option.map_eq_none_iff.mp h) k (List.mem_range.mpr hk)
  · obtain ⟨o, ho, rfl⟩ := Option.map_eq_some_iff.mp h
    refine ⟨⟨o, (Pick.pick_mem ho).2, rfl⟩, fun k hk hun => ?_⟩
    exact hsome o ho k (List.mem_range.mpr hk) hun

/-- **The search goes at least as far as any store it is shown**: what `p` does not lie behind
such a store, it does not lie behind the result. -/
theorem youngestStore_reaches
    (hin : ∀ k, cur.valid k = true → (new.entry k).robId.Within robSize base) {p : Ptr}
    (hp : p.Within robSize base) {o : Nat} (ho : o < lsuIssueQueueSize)
    (hun : cur.unissuedStore new o = true) (hle : p.younger (new.entry o).robId = false) :
    ∃ r, cur.youngestStore new = some r ∧ p.younger r = false := by
  obtain ⟨hnone, hsome⟩ := youngestStore_spec hin
  cases hs : cur.youngestStore new with
  | none =>
    rw [hnone hs o ho] at hun
    cases hun
  | some r =>
    obtain ⟨⟨y, hy, rfl⟩, hmax⟩ := hsome r hs
    exact ⟨_, rfl, Ptr.not_younger_trans hp (hin o (unissuedStore_valid hun))
      (hin y (unissuedStore_valid hy)) hle (hmax o ho hun)⟩

/-! ## What an instruction that enters changes -/

theorem newId_eq_some {id : Nat} (h : new.newId = some id) :
    id < lsuIssueQueueSize ∧ new.valid id = false := by
  have hmem := List.mem_of_find?_eq_some h
  have hfree := List.find?_some h
  exact ⟨List.mem_range.mp hmem, by simpa using hfree⟩

variable {id : Nat} {op : OpInfo}

theorem markSrc2_entry (new : LsuIssue) (op : OpInfo) (i j : Nat) :
    ∃ src2, (markSrc2 new op i).entry j = { new.entry j with src2 := src2 } := by
  unfold markSrc2
  split
  · exact ⟨_, rfl⟩
  · by_cases hji : j = i
    · obtain rfl := hji
      exact ⟨_, Function.update_self ..⟩
    · exact ⟨_, Function.update_of_ne hji _ _⟩

theorem enter_registers (cur : LsuIssue) (inp : LsuIssueInput) (i id : Nat) (op : OpInfo)
    (new : LsuIssue) :
    (cur.enter inp i id op new).valid = Function.update new.valid id true ∧
      (cur.enter inp i id op new).issued = Function.update new.issued id false ∧
      (cur.enter inp i id op new).holdRevPack = new.holdRevPack := by
  unfold enter awaitStore write markSrc2
  dsimp only
  split <;> exact ⟨rfl, rfl, rfl⟩

theorem write_self (inp : LsuIssueInput) (i id : Nat) (op : OpInfo) (new : LsuIssue) :
    ∃ src2, (write inp i id op new).entry id = { entryOf inp op with src2 := src2 } := by
  obtain ⟨src2, hmark⟩ := markSrc2_entry
    { new with
      entry := Function.update new.entry id (entryOf inp op)
      valid := Function.update new.valid id true
      issued := Function.update new.issued id false } op i id
  dsimp only at hmark
  rw [Function.update_self] at hmark
  exact ⟨src2, hmark⟩

theorem write_other (inp : LsuIssueInput) (i : Nat) (op : OpInfo) (new : LsuIssue) (hj : j ≠ id) :
    ∃ src2, (write inp i id op new).entry j = { new.entry j with src2 := src2 } := by
  obtain ⟨src2, hmark⟩ := markSrc2_entry
    { new with
      entry := Function.update new.entry id (entryOf inp op)
      valid := Function.update new.valid id true
      issued := Function.update new.issued id false } op i j
  dsimp only at hmark
  rw [Function.update_of_ne hj] at hmark
  exact ⟨src2, hmark⟩

theorem enter_other (cur : LsuIssue) (inp : LsuIssueInput) (i : Nat) (op : OpInfo)
    (new : LsuIssue) (hj : j ≠ id) :
    ∃ src2, (cur.enter inp i id op new).entry j = { new.entry j with src2 := src2 } := by
  obtain ⟨src2, hwrite⟩ := write_other inp i op new hj
  exact ⟨src2, (Function.update_of_ne hj _ _).trans hwrite⟩

/-- An instruction without an exception changes no slot but its own as it enters. -/
theorem enter_plain (cur : LsuIssue) (inp : LsuIssueInput) (i id : Nat) (new : LsuIssue)
    (hvalid : op.valid = true) (hplain : op.hasException = false) :
    (∀ j, j ≠ id → (cur.enter inp i id op new).entry j = new.entry j) ∧
    (cur.enter inp i id op new).entry id =
      { entryOf inp op with
        waitingStore := ((cur.enter inp i id op new).entry id).waitingStore
        waitingStoreRobId := ((cur.enter inp i id op new).entry id).waitingStoreRobId } := by
  have hwrite : write inp i id op new =
      { new with
        entry := Function.update new.entry id (entryOf inp op)
        valid := Function.update new.valid id true
        issued := Function.update new.issued id false } := by
    rw [write, markSrc2, hvalid, hplain]
    rfl
  rw [enter, hwrite]
  refine ⟨fun j hj => ?_, ?_⟩
  · exact (Function.update_of_ne hj _ _).trans (Function.update_of_ne hj _ _)
  · unfold awaitStore
    dsimp only
    rw [Function.update_self, Function.update_self]

/-- What a load waits for does not change what the search finds. -/
theorem youngestStore_awaitStore (cur : LsuIssue) (inp : LsuIssueInput) (id : Nat) (op : OpInfo)
    (new : LsuIssue) :
    cur.youngestStore (cur.awaitStore inp id op new) = cur.youngestStore new := by
  have hentry (j : Nat) :
      ((cur.awaitStore inp id op new).entry j).robId = (new.entry j).robId ∧
        ((cur.awaitStore inp id op new).entry j).isStore = (new.entry j).isStore := by
    unfold awaitStore
    dsimp only
    by_cases hj : j = id
    · rw [hj, Function.update_self]
      exact ⟨rfl, rfl⟩
    · rw [Function.update_of_ne hj]
      exact ⟨rfl, rfl⟩
  have hfound : cur.unissuedStore (cur.awaitStore inp id op new) = cur.unissuedStore new := by
    funext j
    rw [unissuedStore, (hentry j).2, unissuedStore]
  unfold youngestStore older
  simp only [(hentry _).1, hfound]

/-- An entering load waits for the youngest store that the queue then shows. -/
theorem enter_self (cur : LsuIssue) (inp : LsuIssueInput) (i id : Nat) (op : OpInfo)
    (new : LsuIssue) :
    ∃ src2, (cur.enter inp i id op new).entry id =
      { entryOf inp op with
        src2 := src2
        waitingStore :=
          inp.waits op && (cur.youngestStore (cur.enter inp i id op new)).isSome
        waitingStoreRobId :=
          (cur.youngestStore (cur.enter inp i id op new)).getD ⟨0, false⟩ } := by
  obtain ⟨src2, hwrite⟩ := write_self inp i id op new
  refine ⟨src2, ?_⟩
  unfold enter
  rw [youngestStore_awaitStore]
  unfold awaitStore
  dsimp only
  rw [Function.update_self, hwrite]

end LsuIssue

end DreamCore
