import DreamCore.Backend.Feedback
import DreamCore.Backend.DeviceWrite

/-!
# What the ROB keeps of the results

The input part of commit takes the ports one after another, and for each it reads
the entry as the cycle began with it. Of two results that reach one entry together
the second is merged into what was there before the first, and nothing is left of
the first. A store has two parts, and both may come in one cycle.

Nothing is lost by that as long as the results that are overwritten say nothing
new: they report no exception and do not finish the instruction. What commit then
retires is finished, and carries no exception.
-/

namespace DreamCore

open Ring

/-! ## One entry and its results -/

/-- The results among the ports for one slot of the ROB, in port order. -/
def resultsAt (ports : List ExecuteWbPack) (slot : Nat) : List ExecuteWbPack :=
  ports.filter fun rev => rev.enable && rev.robId.id == slot

/-- The exception a result reports. -/
def ExecuteWbPack.fault (rev : ExecuteWbPack) : Option (RiscvException × Word) :=
  if rev.hasException then some (rev.exceptionId, rev.exceptionValue) else none

namespace RobItem

/-- The exception an entry carries. -/
def fault (item : RobItem) : Option (RiscvException × Word) :=
  if item.hasException then some (item.exceptionId, item.exceptionValue) else none

/-- The entry after several results, one after another. -/
def applyAll (item : RobItem) (revs : List ExecuteWbPack) : RobItem :=
  revs.foldl applyResult item

/-- **Of these results only the last says something new** to the entry. -/
def Absorbs (item : RobItem) (revs : List ExecuteWbPack) : Prop :=
  ∀ rev ∈ revs.dropLast, (rev.hasException = true → item.hasException = true)
    ∧ (rev.lastUop = true → item.finish = true)

variable {item : RobItem} {rev : ExecuteWbPack} {revs : List ExecuteWbPack}

theorem applyResult_fault (item : RobItem) (rev : ExecuteWbPack) :
    (item.applyResult rev).fault = item.fault.or rev.fault := by
  unfold fault ExecuteWbPack.fault applyResult
  cases item.hasException with
  | true => rfl
  | false => rfl

/-- The entry is finished once a last part has come. -/
theorem applyAll_finish (item : RobItem) (revs : List ExecuteWbPack) :
    (item.applyAll revs).finish = (item.finish || revs.any fun rev => rev.lastUop) := by
  induction revs generalizing item with
  | nil => exact (Bool.or_false _).symm
  | cons rev revs ih =>
    rw [applyAll, List.foldl_cons, ← applyAll, ih, List.any_cons, ← Bool.or_assoc]
    rfl

/-- **The first exception counts**, the one the entry had before any. -/
theorem applyAll_fault (item : RobItem) (revs : List ExecuteWbPack) :
    (item.applyAll revs).fault = item.fault.or (revs.findSome? ExecuteWbPack.fault) := by
  induction revs generalizing item with
  | nil => exact (Option.or_none).symm
  | cons rev revs ih =>
    rw [applyAll, List.foldl_cons, ← applyAll, ih, applyResult_fault, Option.or_assoc]
    congr 1
    rw [List.findSome?_cons]
    cases rev.fault <;> rfl

/-- A result that says nothing new is lost without a trace. -/
theorem applyResult_applyResult {last : ExecuteWbPack}
    (hex : rev.hasException = true → item.hasException = true)
    (hfin : rev.lastUop = true → item.finish = true) :
    (item.applyResult rev).applyResult last = item.applyResult last := by
  have hdone : (item.finish || rev.lastUop) = item.finish := by
    cases hl : rev.lastUop with
    | false => exact Bool.or_false _
    | true => rw [hfin hl]; rfl
  unfold applyResult
  dsimp only
  rw [hdone]
  cases hi : item.hasException with
  | true => simp
  | false =>
    have hno : rev.hasException = false := by
      rw [Bool.eq_false_iff]
      intro hc
      rw [hex hc] at hi
      cases hi
    simp [hno]

/-- **Where only the last result says something new, the others may be left out.** -/
theorem Absorbs.applyAll_concat {last : ExecuteWbPack} (h : item.Absorbs (revs ++ [last])) :
    item.applyAll (revs ++ [last]) = item.applyResult last := by
  rw [Absorbs, List.dropLast_concat] at h
  induction revs generalizing item with
  | nil => rfl
  | cons rev revs ih =>
    obtain ⟨hex, hfin⟩ := h rev (List.mem_cons_self ..)
    rw [List.cons_append, applyAll, List.foldl_cons, ← applyAll, ih fun r hr => ?_,
      applyResult_applyResult hex hfin]
    obtain ⟨hex', hfin'⟩ := h r (List.mem_cons_of_mem _ hr)
    refine ⟨fun hr => ?_, fun hr => ?_⟩
    · unfold applyResult
      dsimp only
      rw [hex' hr]
      rfl
    · unfold applyResult
      dsimp only
      rw [hfin' hr]
      rfl

end RobItem

/-- **Of the results that reach one slot in a cycle, the last is merged.** -/
theorem Core.merged_eq (cur : Core) (ports : List ExecuteWbPack) (slot : Nat) :
    cur.merged ports slot = (resultsAt ports slot).getLast?.elim (cur.rob.buffer slot)
      (cur.rob.buffer slot).applyResult := by
  unfold Core.merged
  induction ports using List.reverseRecOn with
  | nil => rfl
  | append_singleton ports rev ih =>
    rw [List.foldl_append, List.foldl_cons, List.foldl_nil, Core.mergeOne, resultsAt,
      List.filter_append, ← resultsAt]
    by_cases hen : rev.enable = true
    · rw [if_pos hen]
      by_cases hs : rev.robId.id = slot
      · subst hs
        rw [Function.update_self, List.filter_cons_of_pos (by simp [hen]), List.filter_nil,
          List.getLast?_concat]
        rfl
      · rw [Function.update_of_ne (Ne.symm hs), List.filter_cons_of_neg (by simp [hs]),
          List.filter_nil, List.append_nil, ih]
    · rw [if_neg hen, List.filter_cons_of_neg (by simp [hen]), List.filter_nil, List.append_nil,
        ih]

/-- **Merging loses nothing** where the entry absorbs the results of the cycle. -/
theorem Core.merged_applyAll {cur : Core} {ports : List ExecuteWbPack} {slot : Nat}
    (h : (cur.rob.buffer slot).Absorbs (resultsAt ports slot)) :
    cur.merged ports slot = (cur.rob.buffer slot).applyAll (resultsAt ports slot) := by
  rw [Core.merged_eq]
  rcases List.eq_nil_or_concat' (resultsAt ports slot) with hnil | ⟨revs, last, hr⟩
  · rw [hnil]
    rfl
  · rw [hr] at h ⊢
    rw [List.getLast?_concat, h.applyAll_concat]
    rfl

/-! ## What commit does with an exception -/

section Commit

variable {cur : Core} {st st' : CommitState} {id : Nat} {item : RobItem} {go : Bool}
  {writeAck : Option BusErrno}

/-- The entries are those of the ROB, finished and without an exception. -/
def Core.Plain (cur : Core) (l : List (Nat × RobItem)) : Prop :=
  ∀ e ∈ l, e.2 = cur.rob.buffer e.1 ∧ e.2.finish = true ∧ e.2.hasException = false

theorem Core.plain_nil : cur.Plain [] := fun e he => by cases he

theorem Core.Plain.append {l l' : List (Nat × RobItem)} (h : cur.Plain l) (h' : cur.Plain l') :
    cur.Plain (l ++ l') := by
  intro e he
  rcases List.mem_append.mp he with he | he
  · exact h e he
  · exact h' e he

/-- The store handle retires nothing. -/
theorem commitStore_logs (hex : st.feedback.hasException = false)
    (h : commitStore cur writeAck id item st = some (st', go)) : st.Logs st' [] go := by
  cases hv : item.storeBufferIdValid with
  | false =>
    unfold commitStore at h
    rw [hv] at h
    cases h
    exact .same hex rfl rfl
  | true =>
    cases commitStore_store hex hv h with
    | waits _ _ hst hgo =>
      subst hst hgo
      exact .same hex rfl rfl
    | failed _ _ hgo _ _ _ hl => exact hgo ▸ hl
    | answered _ _ hgo _ _ _ hl => exact hgo ▸ hl
    | pushed _ _ _ _ _ hgo _ _ _ hl => exact hgo ▸ hl
    | asked _ _ hgo _ _ _ hl => exact hgo ▸ hl

/-- **A turn of the output loop retires no entry with an exception.** -/
theorem commitOne_plain {firstId i : Nat} (hex : st.feedback.hasException = false)
    (h : commitOne cur writeAck firstId i st = some (st', go)) :
    ∃ l, st.Logs st' l go ∧ cur.Plain l := by
  unfold commitOne at h
  split at h
  · cases h
    exact ⟨[], .same hex rfl rfl, Core.plain_nil⟩
  · rename_i id hid
    dsimp only [Fifo.customerGetItem] at h
    cases hfin : (cur.rob.buffer id).finish with
    | false =>
      rw [hfin] at h
      cases h
      exact ⟨[], .same hex rfl rfl, Core.plain_nil⟩
    | true =>
      simp only [hfin, Bool.not_true, if_false, Bool.false_eq_true, Option.bind_eq_some_iff] at h
      obtain ⟨⟨next, nextValid⟩, -, h⟩ := h
      unfold commitFinished at h
      split at h
      · obtain ⟨st₁, h₁, heq⟩ := Option.map_eq_some_iff.mp h
        cases heq
        have hl := (commitException_stores (by exact hex) h₁).2
        exact ⟨[], ⟨hl.retired, hl.goes⟩, Core.plain_nil⟩
      · rename_i hne
        obtain ⟨blocked, -, h⟩ := Option.bind_eq_some_iff.mp h
        split at h
        · cases h
          exact ⟨[], .same hex rfl rfl, Core.plain_nil⟩
        · rcases andThen_eq_some h with ⟨st₁, h₁, hrest⟩ | ⟨hload, hgo⟩
          · have hl₁ := (commitLoad_stores (by exact hex) h₁).2
            rcases andThen_eq_some hrest with ⟨st₂, h₂, h₃⟩ | ⟨h₂, hgo⟩
            · have hl₂ := commitStore_logs (hl₁.goes rfl) h₂
              have hl₃ := (retireBranch_stores (hl₂.goes rfl) h₃).2
              have hl := (hl₁.trans hl₂).trans hl₃
              refine ⟨_, ⟨hl.retired, hl.goes⟩, fun e he => ?_⟩
              rw [List.nil_append, List.nil_append, List.mem_singleton] at he
              rw [he]
              exact ⟨rfl, hfin, by simpa using hne⟩
            · have hl := hl₁.trans (commitStore_logs (hl₁.goes rfl) h₂)
              exact ⟨[], ⟨hl.retired, hl.goes⟩, Core.plain_nil⟩
          · have hl := (commitLoad_stores (by exact hex) hload).2
            exact ⟨[], ⟨hl.retired, hl.goes⟩, Core.plain_nil⟩

theorem commitLoop_plain {firstId k i : Nat} (hex : st.feedback.hasException = false)
    (h : commitLoop cur writeAck firstId k i st = some st') :
    ∃ l, st'.retired = st.retired ++ l ∧ cur.Plain l := by
  induction k generalizing i st with
  | zero =>
    cases h
    exact ⟨[], (List.append_nil _).symm, Core.plain_nil⟩
  | succ k ih =>
    obtain ⟨⟨st₁, go⟩, h₁, h⟩ := Option.bind_eq_some_iff.mp h
    obtain ⟨l₁, hl₁, hp₁⟩ := commitOne_plain hex h₁
    cases go with
    | false =>
      cases h
      exact ⟨l₁, hl₁.retired, hp₁⟩
    | true =>
      obtain ⟨l₂, hl₂, hp₂⟩ := ih (hl₁.goes rfl) h
      exact ⟨l₁ ++ l₂, by rw [hl₂, hl₁.retired, List.append_assoc], hp₁.append hp₂⟩

/-- **What commit retires in a cycle carries no exception.** -/
theorem commitRun_plain {new : Core} {inp : CommitInput} (h : commitRun cur new inp = some st') :
    cur.Plain st'.retired := by
  unfold commitRun at h
  dsimp only at h
  rcases commitInterrupt_cases cur new inp with ⟨w, hint⟩ | ⟨he, hw, -, hret⟩
  · rw [hint] at h
    split at h
    · cases h
      exact Core.plain_nil
    · rw [Option.bind_eq_bind, Option.bind_eq_some_iff] at h
      obtain ⟨st₁, hloop, h⟩ := h
      obtain ⟨l, hl, hp⟩ := commitLoop_plain rfl hloop
      have hret : st'.retired = st₁.retired := by
        split at h <;> cases h <;> rfl
      rw [hret, hl]
      exact hp
  · have hfront : Fifo.customerGetFrontId cur.rob (commitInterrupt cur new inp).new.rob = none := by
      rw [front_none, Fifo.customerIsEmpty, hw.rob]
      exact he
    rw [hfront] at h
    cases h
    rw [hret]
    exact Core.plain_nil

/-- **An exception at the front is raised**, and nothing retires before it. -/
theorem commitRun_raises {new : Core} {inp : CommitInput}
    (hid : Fifo.customerGetFrontId cur.rob new.rob = some id)
    (hfin : (cur.rob.buffer id).finish = true) (hex : (cur.rob.buffer id).hasException = true)
    (h : commitRun cur new inp = some st') :
    st'.feedback.hasException = true ∧ st'.retired = [] ∧ st'.new.csrFile
      = ((new.csrFile.writeSys csrMepc (cur.rob.buffer id).pc).writeSys csrMtval
        (cur.rob.buffer id).exceptionValue).writeSys csrMcause
          (cur.rob.buffer id).exceptionId.toWord := by
  unfold commitRun at h
  dsimp only at h
  rcases commitInterrupt_cases cur new inp with ⟨w, hint⟩ | ⟨he, -, -, -⟩
  · rw [hint] at h
    dsimp only at h
    rw [hid] at h
    dsimp only at h
    rw [Option.bind_eq_bind, Option.bind_eq_some_iff] at h
    obtain ⟨st₁, hloop, h⟩ := h
    obtain ⟨⟨st₂, go⟩, hone, hloop⟩ := Option.bind_eq_some_iff.mp hloop
    unfold commitOne at hone
    dsimp only at hone
    rw [hid] at hone
    dsimp only [Fifo.customerGetItem] at hone
    simp only [hfin, Bool.not_true, if_false, Bool.false_eq_true, Option.bind_eq_some_iff] at hone
    obtain ⟨⟨next, nextValid⟩, -, hone⟩ := hone
    rw [commitFinished, if_pos hex] at hone
    obtain ⟨st₃, hexc, heq⟩ := Option.map_eq_some_iff.mp hone
    cases heq
    cases hloop
    obtain ⟨-, hq, hfb, hcsr⟩ := commitException_sends hexc
    have hret : st₂.retired = [] := by
      rw [CommitState.retired, hfb, if_pos rfl, hq]
      rfl
    split at h
    · cases h
      exact ⟨hfb, hret, hcsr⟩
    · cases h
      exact ⟨hfb, hret, (foldl_commitInput_csrFile ..).trans hcsr⟩
  · rw [front_none.mpr he] at hid
    cases hid

end Commit

section Retired

variable {w : World} {inp : CycleInput} {r : CycleResult} {g : Ghost}

/-- What a cycle retires are the oldest instructions. -/
theorem retired_slots (hw : w.Holds g) (h : w.core.cycle inp = some r) :
    r.commit.retired.map Prod.fst
      = (w.flight.take r.commit.retired.length).map fun f => f.info.robId.id := by
  obtain ⟨n, hlog, hn, -⟩ := cycle_report hw h
  rw [CommitState.Logged] at hlog
  have hlen := congrArg List.length hlog
  rw [List.length_map, List.length_map, List.length_take, Nat.min_eq_left hn] at hlen
  unfold CommitState.retired
  split
  · rw [List.map_dropLast, hlog, List.dropLast_eq_take, List.length_dropLast, hlen,
      List.length_map, List.length_take, Nat.min_eq_left hn, ← List.map_take, List.take_take]
    congr 2
    omega
  · rw [hlog, hlen]

/-- A retired entry is finished and carries no exception. -/
theorem retired_plain (hw : w.Holds g) (h : w.core.cycle inp = some r) {f : Flight}
    (hf : f ∈ w.flight.take r.commit.retired.length) :
    (w.core.rob.buffer f.info.robId.id).finish = true
      ∧ (w.core.rob.buffer f.info.robId.id).hasException = false := by
  have hslot : f.info.robId.id ∈ r.commit.retired.map Prod.fst := by
    rw [retired_slots hw h]
    exact List.mem_map_of_mem hf
  obtain ⟨e, he, hid⟩ := List.mem_map.mp hslot
  obtain ⟨hitem, hfin, hex⟩ := commitRun_plain (Core.cycle_eq_some h).commit e he
  rw [hitem, hid] at hfin hex
  exact ⟨hfin, hex⟩

end Retired

end DreamCore
