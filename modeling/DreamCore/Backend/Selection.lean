import DreamCore.Pipeline.IntegerIssue

/-!
# Which instruction issues

The selection loop of integer issue, against what it is for: every port gets the
oldest entry it could issue. While the load unit stalls, an entry with a source
that waits for a load must stay, and every other entry may go.

The loop looks the vectors up in slot `i`, the number of the port, where it means
slot `j`, the entry it looks at. So the two slots that happen to have the numbers
of the ports decide for all.
-/

namespace DreamCore

open Ring Pick

/-- **The content of the integer issue queue**: its entries are instructions in flight, and no
instruction is in it twice. -/
structure IntegerQueue extends IntegerIssue where
  /-- The ROB counter of the oldest instruction in flight. -/
  base : Nat
  place : ∀ j, valid j = true → ∃ d, d < robSize ∧ (entry j).robId = Ptr.fold robSize (base + d)
  distinct : ∀ j k, valid j = true → valid k = true → (entry j).robId = (entry k).robId → j = k

namespace IntegerQueue

variable (q : IntegerQueue) (inp : IntegerIssueInput)

/-- Port `i` can issue slot `j`, the load unit aside: it is ready, its unit is idle, it is not
squashed, and it does not hang on the load that is replayed. -/
def issuable (i j : Nat) : Bool := q.ready inp i j && !q.skipReplay inp j

/-- Port `i` may issue slot `j`: while the load unit stalls, no source of it waits for a load. -/
def eligible (i j : Nat) : Bool := q.issuable inp i j && !(inp.lu.stall && !q.loadFree j)

/-- Slot `j` is the oldest one of the queue that meets `p`. -/
def Oldest (p : Nat → Bool) (j : Nat) : Prop :=
  First q.older p (List.range integerIssueQueueSize) j

/-- **The ports are given what they should be.** -/
structure Selects : Prop where
  /-- Every port gets the oldest entry it may issue. -/
  oldest : ∀ i, i < integerIssueWidth → ∀ j,
    q.selected inp i = some j ↔ q.Oldest (q.eligible inp i) j
  /-- No entry is given to two ports. -/
  once : ∀ i i' j, q.selected inp i = some j → q.selected inp i' = some j → i = i'
  /-- While the load unit stalls, no entry that waits for a load is issued. -/
  stalled : inp.lu.stall = true → ∀ i, i < integerIssueWidth → ∀ j,
    q.selected inp i = some j → q.loadFree j = true

/-- While the load unit stalls, the slot with the number of each port says what the entries of
the port say: if it waits for no load, neither does the oldest entry the port can issue, and if
it does, so do all of them. -/
def SlotsAgree : Prop :=
  inp.lu.stall = true → ∀ i, i < integerIssueWidth →
    if q.loadFree i then ∀ j, q.Oldest (q.issuable inp i) j → q.loadFree j = true
    else ∀ j, j < integerIssueQueueSize → q.issuable inp i j = true → q.loadFree j = false

/-! ## Ages -/

/-- How many instructions in flight are older than slot `j`. -/
def rank (j : Nat) : Nat := ((q.entry j).robId.id + robSize - q.base % robSize) % robSize

variable {q} {inp}

theorem rank_eq {j d : Nat} (hd : d < robSize)
    (h : (q.entry j).robId = Ptr.fold robSize (q.base + d)) : q.rank j = d := by
  rw [rank, h, Ptr.fold_id]
  simp only [robSize] at *
  omega

/-- **The age comparison orders the queue.** -/
theorem ranked (l : List Nat) : Ranked q.older q.valid l q.rank where
  beats_iff := by
    intro j _ hj k _ hk
    obtain ⟨d, hd, hjd⟩ := q.place j hj
    obtain ⟨e, he, hke⟩ := q.place k hk
    rw [rank_eq hd hjd, rank_eq he hke, IntegerIssue.older, hjd, hke,
      Ptr.younger_fold (by decide) (by omega) (by omega)]
    omega
  inj := by
    intro j _ hj k _ hk he
    obtain ⟨d, hd, hjd⟩ := q.place j hj
    obtain ⟨e, he', hke⟩ := q.place k hk
    rw [rank_eq hd hjd, rank_eq he' hke] at he
    subst he
    exact q.distinct j k hj hk (hjd.trans hke.symm)

theorem issuable_valid {i j : Nat} (h : q.issuable inp i j = true) : q.valid j = true := by
  simp only [issuable, IntegerIssue.ready, Bool.and_eq_true] at h
  exact h.1.1.1.1.1.1.1.1

theorem candidate_eq (i j : Nat) :
    q.candidate inp i j = (q.issuable inp i j && !(inp.lu.stall && !q.loadFree i)) := rfl

/-- **What the loop selects.** -/
theorem selected_eq_some_iff {i j : Nat} :
    q.selected inp i = some j ↔ q.Oldest (q.candidate inp i) j := by
  refine pick_eq_some_iff ((ranked _).mono ?_)
  intro k _ hk
  rw [candidate_eq, Bool.and_eq_true] at hk
  exact issuable_valid hk.1

/-- Whenever a port may issue some entry, one of them is the oldest. -/
theorem exists_oldest {p : Nat → Bool} (hp : ∀ j, p j = true → q.valid j = true) {j : Nat}
    (hj : j < integerIssueQueueSize) (h : p j = true) : ∃ k, q.Oldest p k := by
  have hr : Ranked q.older p (List.range integerIssueQueueSize) q.rank :=
    (ranked _).mono fun k _ hk => hp k hk
  cases hs : pick q.older p (List.range integerIssueQueueSize) with
  | some k => exact ⟨k, (pick_eq_some_iff hr).mp hs⟩
  | none =>
    have := (pick_eq_none_iff hr).mp hs j (List.mem_range.mpr hj)
    rw [h] at this
    cases this

/-! ## The two slots -/

/-- A port gets only what is assigned to it. -/
theorem selected_port {i j : Nat} (h : q.selected inp i = some j) :
    (q.entry j).portIndex = i := by
  have hc := (selected_eq_some_iff.mp h).candidate
  rw [candidate_eq, issuable] at hc
  simp only [IntegerIssue.ready, Bool.and_eq_true, beq_iff_eq] at hc
  exact hc.1.1.1.1.1.1.2

/-- Two tests that agree on the queue have the same oldest entry. -/
theorem Oldest.congr {p p' : Nat → Bool} {j : Nat} (h : ∀ k, p k = p' k) :
    q.Oldest p j ↔ q.Oldest p' j := by
  rw [funext h]

/-- **The selection is right exactly when the two slots agree with the entries.** -/
theorem selects_iff (q : IntegerQueue) (inp : IntegerIssueInput) :
    q.Selects inp ↔ q.SlotsAgree inp := by
  constructor
  · intro h hstall i hi
    split
    · rename_i hfree
      -- the loop looks at all issuable entries and takes the oldest
      intro j hj
      refine h.stalled hstall i hi j (selected_eq_some_iff.mpr ((Oldest.congr fun k => ?_).mpr hj))
      rw [candidate_eq, hfree, hstall]
      simp
    · rename_i hfree
      -- the loop takes nothing, so there is nothing it should take
      intro j hj hiss
      rw [Bool.eq_false_iff]
      intro hjfree
      have hel : q.eligible inp i j = true := by
        rw [eligible, hiss, hjfree]
        simp
      obtain ⟨k, hk⟩ := exists_oldest (p := q.eligible inp i) (fun k hk => by
        rw [eligible, Bool.and_eq_true] at hk
        exact issuable_valid hk.1) hj hel
      have hsel := (selected_eq_some_iff.mp ((h.oldest i hi k).mpr hk)).candidate
      rw [candidate_eq, hstall, Bool.eq_false_iff.mpr hfree] at hsel
      simp at hsel
  · intro h
    have honce : ∀ i i' j, q.selected inp i = some j → q.selected inp i' = some j → i = i' := by
      intro i i' j hj hj'
      rw [← selected_port hj, ← selected_port hj']
    cases hstall : inp.lu.stall with
    | false =>
      refine ⟨fun i _ j => ?_, honce, fun hc => ?_⟩
      · rw [selected_eq_some_iff]
        refine Oldest.congr fun k => ?_
        rw [candidate_eq, eligible, hstall]
        rfl
      · rw [hstall] at hc
        cases hc
    | true =>
      have hport : ∀ i, i < integerIssueWidth → ∀ j,
          q.selected inp i = some j ↔ q.Oldest (q.eligible inp i) j := by
        intro i hi j
        have hslot := h hstall i hi
        rw [selected_eq_some_iff]
        split at hslot
        · rename_i hfree
          have hcand : ∀ k, q.candidate inp i k = q.issuable inp i k := by
            intro k
            rw [candidate_eq, hfree, hstall]
            simp
          rw [Oldest.congr hcand]
          constructor
          · intro hj
            refine ⟨hj.mem, ?_, fun k hk hek => ?_⟩
            · rw [eligible, hj.candidate, hslot j hj]
              simp
            · rw [eligible, Bool.and_eq_true] at hek
              exact hj.beats k hk hek.1
          · intro hj
            have hjc := hj.candidate
            rw [eligible, Bool.and_eq_true] at hjc
            obtain ⟨k, hk⟩ := exists_oldest (p := q.issuable inp i) (fun k hk => issuable_valid hk)
              (List.mem_range.mp hj.mem) hjc.1
            -- the oldest issuable entry waits for no load, so it is the oldest eligible one
            have hke : q.Oldest (q.eligible inp i) k := by
              refine ⟨hk.mem, ?_, fun l hl hel => ?_⟩
              · rw [eligible, hk.candidate, hslot k hk]
                simp
              · rw [eligible, Bool.and_eq_true] at hel
                exact hk.beats l hl hel.1
            have hr : Ranked q.older (q.eligible inp i) (List.range integerIssueQueueSize)
                q.rank := (ranked _).mono fun l _ hl => by
              rw [eligible, Bool.and_eq_true] at hl
              exact issuable_valid hl.1
            rw [hj.unique hr hke]
            exact hk
        · rename_i hfree
          have hcand : ∀ k, q.candidate inp i k = false := by
            intro k
            rw [candidate_eq, hstall, Bool.eq_false_iff.mpr hfree]
            simp
          constructor
          · intro hj
            have := hj.candidate
            rw [hcand j] at this
            cases this
          · intro hj
            have hjc := hj.candidate
            rw [eligible, hstall, Bool.and_eq_true] at hjc
            rw [hslot j (List.mem_range.mp hj.mem) hjc.1] at hjc
            simp at hjc
      refine ⟨hport, honce, fun _ i hi j hj => ?_⟩
      have hjc := ((hport i hi j).mp hj).candidate
      rw [eligible, hstall, Bool.and_eq_true] at hjc
      simpa using hjc.2

/-- One entry, in slot 2: an ALU instruction that the load in the first level has just woken. -/
def wokenByLoad : IntegerQueue where
  entry j :=
    if j = 2 then
      { src1 := { ready := true, lpv := 2 }
        src2 := { ready := true }
        opUnitSeq := 1 }
    else {}
  valid j := j == 2
  base := 0
  place := by
    intro j hj
    obtain rfl : j = 2 := by simpa using hj
    exact ⟨0, by decide, rfl⟩
  distinct := by
    intro j k hj hk _
    obtain rfl : j = 2 := by simpa using hj
    exact (by simpa using hk : k = 2).symm

/-- **An instruction that waits for a load is issued while the load unit stalls**, because slot 0
is empty. -/
theorem wokenByLoad_issued : ¬ ∀ q inp, IntegerQueue.Selects q inp := by
  intro h
  have hsel : wokenByLoad.selected { lu := { stall := true } } 0 = some 2 := by decide
  have hfree := (h wokenByLoad { lu := { stall := true } }).stalled rfl 0 (by decide) 2 hsel
  revert hfree
  decide

end IntegerQueue

end DreamCore
