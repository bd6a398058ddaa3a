import DreamCore.Backend.IssueStep
import DreamCore.Backend.LsuQueue

/-!
# The wait table holds loads back

A load that once ran ahead of a store it depends on has its wait bit set, and is
then to wait for the older stores of the queue. It waits for one: the youngest
that the queue shows as not issued when the load enters. As instructions enter in
program order, the older ones are waited for with it.

The search reads the registered bits. They hide a store that has entered in the
same cycle, and a store whose issue a replay takes back in the same cycle; such a
store is waited for only when a younger one is shown. A replay can also take a
store back after the loads behind it have been released.
-/

namespace DreamCore

open Ring

/-! ## Runs of the queue -/

/-- An instruction that enters: its slot, and the queue right after it has been written. -/
structure LsuEntering where
  slot : Nat
  op : OpInfo
  queue : LsuIssue

/-- What enters of a pack, from place `i` on. -/
def LsuIssue.entering (cur : LsuIssue) (inp : LsuIssueInput) :
    Nat → List OpInfo → LsuIssue → List LsuEntering
  | _, [], _ => []
  | i, op :: ops, new =>
      if !op.enable then cur.entering inp (i + 1) ops new
      else match new.newId with
        | some id =>
            ⟨id, op, cur.enter inp i id op new⟩
              :: cur.entering inp (i + 1) ops (cur.enter inp i id op new)
        | none => []

/-- `lsu_issue`, and what a run remembers. -/
structure LsuHistory extends LsuIssue where
  /-- The ROB counter of the oldest instruction in flight. -/
  base : Nat := 0
  /-- The slot has last been given to a load whose wait bit was set. -/
  marked : Nat → Bool := fun _ => false

namespace LsuHistory

/-- What enters in a cycle; `new` is the queue after `run_wakeup`. -/
def entered (s : LsuHistory) (inp : LsuIssueInput) (new : LsuIssue) : List LsuEntering :=
  if inp.commitFlush then []
  else s.entering inp 0 (new.revPack inp) { new with busy := false, holdRevPack := [] }

/-- `marked` after an instruction has entered. -/
def mark (inp : LsuIssueInput) (marked : Nat → Bool) (x : LsuEntering) : Nat → Bool :=
  Function.update marked x.slot (inp.waits x.op)

/-- One cycle; the ROB begins at counter `base` after it. -/
def cycle (s : LsuHistory) (inp : LsuIssueInput) (base : Nat) : Option LsuHistory :=
  (s.woken inp).map fun new =>
    { toLsuIssue := s.runInput new inp
      base := base
      marked := (s.entered inp new).foldl (mark inp) s.marked }

/-- **What the core promises.** Whatever is in the queue, held or about to enter is in the ROB,
and stays there for another cycle; what is new comes in program order. -/
structure Legal (s : LsuHistory) (inp : LsuIssueInput) (base : Nat) : Prop where
  queued : ∀ j, j < lsuIssueQueueSize → s.valid j = true →
    (s.entry j).robId.Within robSize base
  held : ∀ op ∈ enabled s.holdRevPack, op.robId.Within robSize base
  arrived : s.busy = false → ∀ op ∈ enabled inp.pack, op.robId.Within robSize base
  ordered : s.busy = false → (enabled inp.pack).Pairwise fun a b =>
    Ptr.Before robSize base a.robId b.robId
  behind : s.busy = false → ∀ op ∈ enabled inp.pack, ∀ j, j < lsuIssueQueueSize →
    s.valid j = true → Ptr.Before robSize base (s.entry j).robId op.robId

/-- The runs from an empty queue in which every cycle meets `C`. -/
inductive Run (C : LsuHistory → LsuIssueInput → Prop) : LsuHistory → Prop
  | init {s : LsuHistory} (hempty : ∀ j, s.valid j = false) (hbusy : s.busy = false)
      (hheld : s.holdRevPack = []) : Run C s
  | step {s s' : LsuHistory} {inp : LsuIssueInput} {base : Nat} (hrun : Run C s)
      (hlegal : inp.commitFlush = false → s.Legal inp base) (hmeets : C s inp)
      (hcycle : s.cycle inp base = some s') : Run C s'

/-! ## What is to hold -/

/-- Slot `k` holds a store that is older than the instruction in slot `m`. -/
def StoreAhead (s : LsuHistory) (k m : Nat) : Prop :=
  s.valid k = true ∧ (s.entry k).isStore = true ∧
    Ptr.Before robSize s.base (s.entry k).robId (s.entry m).robId

/-- **The wait table is conservative**, but not for longer than it has to be. -/
structure Conservative (s : LsuHistory) : Prop where
  /-- No load whose wait bit was set is issued ahead of the address of an older store. -/
  heldBack : ∀ inp m, s.selected inp 0 = some m → s.marked m = true →
    ∀ k, s.StoreAhead k m → (s.entry k).sauPartIssued = true
  /-- A load waits no longer once all older stores have issued or are gone. -/
  released : ∀ inp new, inp.commitFlush = false → s.woken inp = some new →
    ∀ m, s.valid m = true → inp.squashes (s.entry m).robId = false →
      (∀ k, s.StoreAhead k m → s.issued k = true) → (new.entry m).waitingStore = false
  /-- A store leaves the queue when it is squashed, and otherwise not before its address. -/
  leaves : ∀ inp new, inp.commitFlush = false → s.woken inp = some new →
    ∀ k, s.valid k = true → (s.entry k).isStore = true → new.valid k = false →
      inp.squashes (s.entry k).robId = true ∨ (new.entry k).sauPartIssued = true

/-! ## When it does -/

/-- The search for a store finds one that is not older than `robId`. -/
def Shows (cur new : LsuIssue) (robId : Ptr) : Prop :=
  ∃ o, o < lsuIssueQueueSize ∧ cur.unissuedStore new o = true ∧
    robId.younger (new.entry o).robId = false

/-- A store that has not issued, but the registered bits do not say so. -/
def hidden (cur new : LsuIssue) (k : Nat) : Bool :=
  new.valid k && !new.issued k && (new.entry k).isStore && !cur.unissuedStore new k

/-- A replay takes back the issue of a store. -/
def takenBack (s : LsuHistory) (inp : LsuIssueInput) (k : Nat) : Bool :=
  !inp.commitFlush && s.valid k && s.issued k && (s.entry k).isStore
    && (s.entry k).replays inp.lu

/-- The load in slot `m` goes on waiting, and for a store that is not older than `robId`. -/
def StillWaits (s : LsuHistory) (m : Nat) (robId : Ptr) : Prop :=
  (s.entry m).waitingStore = true ∧ robId.younger (s.entry m).waitingStoreRobId = false ∧
    ∃ o, o < lsuIssueQueueSize ∧ s.unissuedStore s.toLsuIssue o = true ∧
      (s.entry o).robId.younger (s.entry m).waitingStoreRobId = false

/-- Every hidden store ahead of an entering load whose wait bit is set is older than one that
shows. -/
def EnteringShow (s : LsuHistory) (inp : LsuIssueInput) : Prop :=
  ∀ new ∈ s.woken inp, ∀ x ∈ s.entered inp new, inp.waits x.op = true →
    ∀ k, k < lsuIssueQueueSize → hidden s.toLsuIssue x.queue k = true →
      Shows s.toLsuIssue x.queue (x.queue.entry k).robId

/-- Slot `m` holds a load whose wait bit was set; it is behind slot `k`, and not squashed. -/
def loadBehind (s : LsuHistory) (inp : LsuIssueInput) (k m : Nat) : Bool :=
  s.valid m && s.marked m && !inp.squashes (s.entry m).robId
    && (s.entry m).robId.younger (s.entry k).robId

/-- No store is taken back that a load behind it does not go on waiting for. -/
def TakenBackWait (s : LsuHistory) (inp : LsuIssueInput) : Prop :=
  ∀ k, k < lsuIssueQueueSize → s.takenBack inp k = true →
    ∀ m, m < lsuIssueQueueSize → s.loadBehind inp k m = true → s.StillWaits m (s.entry k).robId

/-- **No store escapes the loads behind it.** -/
def NoneEscapes (s : LsuHistory) (inp : LsuIssueInput) : Prop :=
  s.EnteringShow inp ∧ s.TakenBackWait inp

/-! ## The invariant -/

/-- **What holds of the queue.** `base` is where the ROB begins, `marked` are the slots given to
loads whose wait bit was set. -/
structure Guarded (q : LsuIssue) (base : Nat) (marked : Nat → Bool) : Prop where
  bound : ∀ j, q.valid j = true → j < lsuIssueQueueSize
  inRob : ∀ j, q.valid j = true → (q.entry j).robId.Within robSize base
  item : ∀ j, q.valid j = true → (q.entry j).item.robId = (q.entry j).robId
  address : ∀ j, q.valid j = true → (q.entry j).isStore = true → q.issued j = true →
    (q.entry j).sauPartIssued = true
  /-- What a load waits for is older than the load, and still in the ROB. -/
  awaited : ∀ m, q.valid m = true → (q.entry m).waitingStore = true →
    (q.entry m).waitingStoreRobId.Within robSize base ∧
      (q.entry m).robId.younger (q.entry m).waitingStoreRobId = true
  /-- A marked load waits for every older store that has not issued, or for a younger one. -/
  guarded : ∀ m, q.valid m = true → marked m = true →
    ∀ k, q.valid k = true → (q.entry k).isStore = true → q.issued k = false →
      (q.entry m).robId.younger (q.entry k).robId = true →
        (q.entry m).waitingStore = true ∧
          (q.entry k).robId.younger (q.entry m).waitingStoreRobId = false

/-- Instructions in program order. -/
def Sorted (ops : List OpInfo) : Prop :=
  (enabled ops).Pairwise fun a b => b.robId.younger a.robId = true

/-- **The invariant**: what is held back is younger than what is in the queue. -/
structure Inv (s : LsuHistory) : Prop where
  queue : Guarded s.toLsuIssue s.base s.marked
  sorted : Sorted s.holdRevPack
  behind : ∀ op ∈ enabled s.holdRevPack, ∀ j, s.valid j = true →
    op.robId.younger (s.entry j).robId = true

variable {s s' : LsuHistory} {inp : LsuIssueInput} {base : Nat} {new : LsuIssue}

theorem inv_empty (hempty : ∀ j, s.valid j = false) (hheld : s.holdRevPack = []) : s.Inv := by
  have hno {P : Prop} {j : Nat} (hv : s.valid j = true) : P := by
    rw [hempty j] at hv
    cases hv
  refine ⟨⟨fun j hv => hno hv, fun j hv => hno hv, fun j hv => hno hv, fun j hv => hno hv,
    fun m hv => hno hv, fun m hv => hno hv⟩, ?_, ?_⟩
  · rw [hheld]
    exact List.Pairwise.nil
  · rw [hheld]
    intro op hop
    cases hop

/-! ## What it says about a cycle -/

theorem Inv.itemWithin (h : s.Inv) :
    ∀ k, s.valid k = true → (s.entry k).item.robId.Within robSize s.base := by
  intro k hk
  rw [h.queue.item k hk]
  exact h.queue.inRob k hk

/-- **A load stays blocked** while a store that is not younger than the awaited one has not
issued. -/
theorem Inv.not_released (h : s.Inv) {m o : Nat} (hm : s.valid m = true)
    (hw : (s.entry m).waitingStore = true) (ho : o < lsuIssueQueueSize)
    (hun : s.unissuedStore s.toLsuIssue o = true)
    (hle : (s.entry o).robId.younger (s.entry m).waitingStoreRobId = false) :
    ∃ k, s.valid k = true ∧ s.oldestStore s.toLsuIssue = some (s.entry k).robId ∧
      (s.entry k).robId.younger (s.entry m).waitingStoreRobId = false := by
  obtain ⟨hnone, hsome⟩ := LsuIssue.oldestStore_spec h.itemWithin
  cases hs : s.oldestStore s.toLsuIssue with
  | none =>
    rw [hnone hs o ho] at hun
    cases hun
  | some r =>
    obtain ⟨⟨k, hk, rfl⟩, hmin⟩ := hsome r hs
    have hko := hmin o ho hun
    rw [h.queue.item k (LsuIssue.unissuedStore_valid hk), h.queue.item o (LsuIssue.unissuedStore_valid hun)] at hko
    rw [h.queue.item k (LsuIssue.unissuedStore_valid hk)]
    refine ⟨k, LsuIssue.unissuedStore_valid hk, rfl, ?_⟩
    exact Ptr.not_younger_trans (h.queue.inRob k (LsuIssue.unissuedStore_valid hk)) (h.queue.inRob o (LsuIssue.unissuedStore_valid hun))
      (h.queue.awaited m hm hw).1 hko hle

/-- **What the invariant gives.** -/
theorem Inv.conservative (h : s.Inv) : s.Conservative where
  heldBack := by
    intro inp m hsel hmark k ⟨hk, hstore, hbefore⟩
    have hawake := LsuIssue.selected_awake hsel
    simp only [LsuIssue.awake, Bool.and_eq_true, Bool.not_eq_true'] at hawake
    obtain ⟨⟨⟨⟨⟨hm, -⟩, -⟩, -⟩, -⟩, hfree⟩ := hawake
    cases hissued : s.issued k with
    | true => exact h.queue.address k hk hstore hissued
    | false =>
      rw [(h.queue.guarded m hm hmark k hk hstore hissued hbefore.younger).1] at hfree
      cases hfree
  released := by
    intro inp new hflush hwoken m hm hkeep hdone
    have hslot := LsuIssue.woken_slot hwoken hflush (h.queue.bound m hm)
    rw [hslot.waiting hm (by rw [h.queue.item m hm]; exact hkeep)]
    cases hw : (s.entry m).waitingStore with
    | false => rfl
    | true =>
      obtain ⟨hin, hyounger⟩ := h.queue.awaited m hm hw
      obtain ⟨-, hsome⟩ := LsuIssue.oldestStore_spec h.itemWithin
      rw [Bool.true_and, Bool.not_eq_false']
      cases hs : s.oldestStore s.toLsuIssue with
      | none => rfl
      | some r =>
        -- the oldest one is not ahead of the load, so it is behind what the load waits for
        obtain ⟨⟨k, hk, rfl⟩, -⟩ := hsome r hs
        simp only [LsuIssue.unissuedStore, Bool.and_eq_true, Bool.not_eq_true'] at hk
        rw [h.queue.item k hk.1.1]
        refine Ptr.younger_of_le (h.queue.inRob k hk.1.1) (h.queue.inRob m hm) hin ?_ hyounger
        rw [Bool.eq_false_iff]
        intro hahead
        have hissued := hdone k ⟨hk.1.1, hk.2,
          (Ptr.before_iff (h.queue.inRob k hk.1.1) (h.queue.inRob m hm)).mpr hahead⟩
        rw [hk.1.2] at hissued
        cases hissued
  leaves := by
    intro inp new hflush hwoken k hk hstore hgone
    have hslot := LsuIssue.woken_slot hwoken hflush (h.queue.bound k hk)
    cases hsq : inp.squashes (s.entry k).robId with
    | true => exact .inl rfl
    | false =>
      refine .inr (hslot.address hk ?_ hstore (fun hi => h.queue.address k hk hstore hi)
        (.inr hgone))
      rw [h.queue.item k hk]
      exact hsq

/-! ## What the first two stages keep -/

/-- **Output and wakeup keep the invariant of the queue.** -/
theorem Inv.woken (h : s.Inv) (hlegal : s.Legal inp base) (hshow : s.NoneEscapes inp)
    (hflush : inp.commitFlush = false) (hwoken : s.woken inp = some new) :
    Guarded new base s.marked := by
  have hbound : ∀ j, new.valid j = true → j < lsuIssueQueueSize := by
    intro j hv
    exact h.queue.bound j (LsuIssue.woken_valid hwoken hflush hv)
  have hslot {j : Nat} (hv : new.valid j = true) : LsuIssue.Woken s.toLsuIssue inp new j :=
    LsuIssue.woken_slot hwoken hflush (hbound j hv)
  have hwait {m : Nat} (hv : new.valid m = true) : (new.entry m).waitingStore
      = ((s.entry m).waitingStore && !(s.entry m).released (s.oldestStore s.toLsuIssue)) :=
    (hslot hv).waiting ((hslot hv).valid hv).1 ((hslot hv).valid hv).2
  -- a load that waits, and for a store that is not older than one that has not issued
  have hstays {m o : Nat} (hv : new.valid m = true) (hw : (s.entry m).waitingStore = true)
      (ho : o < lsuIssueQueueSize) (hun : s.unissuedStore s.toLsuIssue o = true)
      (hle : (s.entry o).robId.younger (s.entry m).waitingStoreRobId = false) :
      (new.entry m).waitingStore = true := by
    obtain ⟨k, -, hold, hkle⟩ := h.not_released ((hslot hv).valid hv).1 hw ho hun hle
    rw [hwait hv, hw, hold, LsuEntry.released, hkle]
    rfl
  refine ⟨hbound, fun j hv => ?_, fun j hv => ?_, fun j hv hstore hissued => ?_,
    fun m hv hw => ?_, fun m hv hmark k hk hstore hissued hyounger => ?_⟩
  · rw [(hslot hv).robId]
    exact hlegal.queued j (hbound j hv) ((hslot hv).valid hv).1
  · rw [(hslot hv).item, (hslot hv).robId]
    exact h.queue.item j ((hslot hv).valid hv).1
  · rw [(hslot hv).isStore] at hstore
    exact (hslot hv).address ((hslot hv).valid hv).1 ((hslot hv).valid hv).2 hstore
      (fun hi => h.queue.address j ((hslot hv).valid hv).1 hstore hi) (.inl hissued)
  · have hm := ((hslot hv).valid hv).1
    rw [hwait hv, Bool.and_eq_true, Bool.not_eq_true'] at hw
    rw [(hslot hv).robId, (hslot hv).awaited]
    obtain ⟨hin, hyounger⟩ := h.queue.awaited m hm hw.1
    refine ⟨?_, hyounger⟩
    -- the oldest store and the load are in the ROB, and what is waited for lies between them
    obtain ⟨-, hsome⟩ := LsuIssue.oldestStore_spec h.itemWithin
    cases hs : s.oldestStore s.toLsuIssue with
    | none =>
      rw [hs, LsuEntry.released] at hw
      cases hw.2
    | some r =>
      obtain ⟨⟨o, ho, rfl⟩, -⟩ := hsome r hs
      have ho := LsuIssue.unissuedStore_valid ho
      rw [hs, LsuEntry.released, h.queue.item o ho] at hw
      exact Ptr.Within.between (h.queue.inRob o ho) hin (h.queue.inRob m hm) hw.2
        (Ptr.younger_asymm hyounger) (hlegal.queued o (h.queue.bound o ho) ho)
        (hlegal.queued m (hbound m hv) hm)
  · have hm := (hslot hv).valid hv
    rw [(hslot hk).isStore] at hstore
    rw [(hslot hv).robId, (hslot hk).robId] at hyounger
    rw [(hslot hk).robId, (hslot hv).awaited]
    have hks := ((hslot hk).valid hk).1
    rcases (hslot hk).reissues hk hissued with hun | ⟨hwas, hreplays⟩
    · obtain ⟨hw, hle⟩ := h.queue.guarded m hm.1 hmark k hks hstore hun hyounger
      refine ⟨hstays hv hw (hbound k hk) ?_ hle, hle⟩
      rw [LsuIssue.unissuedStore, hks, hun, hstore]
      rfl
    · -- a replay has taken it back, so the load still waits
      have htaken : s.takenBack inp k = true := by
        rw [takenBack, hflush, hks, hwas, hstore, hreplays]
        rfl
      have hkeep := hm.2
      rw [h.queue.item m hm.1] at hkeep
      have hbehind : s.loadBehind inp k m = true := by
        rw [loadBehind, hm.1, hmark, hkeep, hyounger]
        rfl
      obtain ⟨hw, hle, o, ho, hun, hole⟩ :=
        hshow.2 k (hbound k hk) htaken m (hbound m hv) hbehind
      exact ⟨hstays hv hw ho hun hole, hle⟩

/-! ## What the loop of the input stage keeps -/

/-- **The invariant of the loop**: the queue so far, and the rest of the pack behind it. -/
structure Filling (s : LsuHistory) (base : Nat) (new : LsuIssue) (marked : Nat → Bool)
    (ops : List OpInfo) : Prop where
  queue : Guarded new base marked
  /-- What the searches may look at. -/
  seen : ∀ o, s.valid o = true → (new.entry o).robId.Within robSize base
  within : ∀ op ∈ enabled ops, op.robId.Within robSize base
  sorted : Sorted ops
  behind : ∀ op ∈ enabled ops, ∀ j, s.valid j = true ∨ new.valid j = true →
    op.robId.younger (new.entry j).robId = true

variable {marked : Nat → Bool} {op : OpInfo} {ops : List OpInfo} {i id : Nat}

theorem Filling.rest (h : Filling s base new marked (op :: ops)) :
    Filling s base new marked ops := by
  have hsub : (enabled ops).Sublist (enabled (op :: ops)) := (List.sublist_cons_self op ops).filter _
  refine ⟨h.queue, h.seen, fun a ha => ?_, h.sorted.sublist hsub, fun a ha => ?_⟩
  · exact h.within a (hsub.subset ha)
  · exact h.behind a (hsub.subset ha)

/-- **One instruction enters.** -/
theorem Filling.enter (h : Filling s base new marked (op :: ops)) (hen : op.enable = true)
    (hid : new.newId = some id)
    (hshow : inp.waits op = true → ∀ k, k < lsuIssueQueueSize →
      hidden s.toLsuIssue (s.enter inp i id op new) k = true → Shows s.toLsuIssue (s.enter inp i id op new)
        ((s.enter inp i id op new).entry k).robId) :
    Filling s base (s.enter inp i id op new) (Function.update marked id (inp.waits op)) ops := by
  obtain ⟨hsize, hfree⟩ := LsuIssue.newId_eq_some hid
  have hops : enabled (op :: ops) = op :: enabled ops := by rw [enabled_cons, if_pos hen]
  have hmem : op ∈ enabled (op :: ops) := hops ▸ List.mem_cons_self ..
  have hop := h.within op hmem
  have hbehind := h.behind op hmem
  obtain ⟨hvalid, hissued, -⟩ := LsuIssue.enter_registers s.toLsuIssue inp i id op new
  have hother (j : Nat) (hj : j ≠ id) := LsuIssue.enter_other s.toLsuIssue inp i op new hj
  obtain ⟨src2, hself⟩ := LsuIssue.enter_self s.toLsuIssue inp i id op new
  generalize s.enter inp i id op new = queue at *
  have hvother {j : Nat} (hj : j ≠ id) : queue.valid j = new.valid j := by
    rw [hvalid, Function.update_of_ne hj]
  have hiother {j : Nat} (hj : j ≠ id) : queue.issued j = new.issued j := by
    rw [hissued, Function.update_of_ne hj]
  have hrob {j : Nat} (hj : j ≠ id) : (queue.entry j).robId = (new.entry j).robId := by
    obtain ⟨_, he⟩ := hother j hj
    rw [he]
  have hrobSelf : (queue.entry id).robId = op.robId := by
    rw [hself]
    rfl
  have hseen : ∀ o, s.valid o = true → (queue.entry o).robId.Within robSize base := by
    intro o ho
    by_cases hoid : o = id
    · rw [hoid, hrobSelf]
      exact hop
    · rw [hrob hoid]
      exact h.seen o ho
  have hbound : ∀ j, queue.valid j = true → j < lsuIssueQueueSize := by
    intro j hv
    by_cases hj : j = id
    · rw [hj]
      exact hsize
    · rw [hvother hj] at hv
      exact h.queue.bound j hv
  have hin : ∀ j, queue.valid j = true → (queue.entry j).robId.Within robSize base := by
    intro j hv
    by_cases hj : j = id
    · rw [hj, hrobSelf]
      exact hop
    · rw [hrob hj]
      rw [hvother hj] at hv
      exact h.queue.inRob j hv
  obtain ⟨-, hsome⟩ := LsuIssue.youngestStore_spec hseen
  refine ⟨⟨hbound, hin, fun j hv => ?_, fun j hv hstore hi => ?_, fun m hv hw => ?_,
    fun m hv hmark k hk hstore hi hyounger => ?_⟩, hseen, h.rest.within, h.rest.sorted,
    fun a ha j hj => ?_⟩
  · by_cases hj : j = id
    · rw [hj, hself]
      rfl
    · obtain ⟨_, he⟩ := hother j hj
      rw [he]
      rw [hvother hj] at hv
      exact h.queue.item j hv
  · by_cases hj : j = id
    · rw [hj, hissued, Function.update_self] at hi
      cases hi
    · obtain ⟨_, he⟩ := hother j hj
      rw [he] at hstore ⊢
      rw [hvother hj] at hv
      rw [hiother hj] at hi
      exact h.queue.address j hv hstore hi
  · by_cases hm : m = id
    · rw [hm, hself] at hw
      rw [hm, hrobSelf, hself]
      rw [Bool.and_eq_true] at hw
      cases hs : s.youngestStore queue with
      | none =>
        rw [hs] at hw
        cases hw.2
      | some r =>
        obtain ⟨⟨o, ho, rfl⟩, -⟩ := hsome r hs
        have hov := LsuIssue.unissuedStore_valid ho
        -- a load is no store, so the store is another entry
        have hoid : o ≠ id := by
          rintro rfl
          have hload := LsuIssue.unissuedStore_isStore ho
          rw [hself] at hload
          simp only [LsuIssueInput.waits, Bool.and_eq_true, beq_iff_eq] at hw
          simp [LsuIssue.entryOf, hw.1.1] at hload
        refine ⟨hseen o hov, ?_⟩
        change op.robId.younger (queue.entry o).robId = true
        rw [hrob hoid]
        exact hbehind o (.inl hov)
    · obtain ⟨_, he⟩ := hother m hm
      rw [he] at hw ⊢
      rw [hvother hm] at hv
      exact h.queue.awaited m hv hw
  · by_cases hm : m = id
    · rw [hm, Function.update_self] at hmark
      rw [hm, hself]
      have hkid : k ≠ id := by
        rintro rfl
        rw [hm, Ptr.younger_irrefl] at hyounger
        cases hyounger
      -- either the search finds the store itself, or one that is not older
      have hcover : ∃ o, o < lsuIssueQueueSize ∧ s.unissuedStore queue o = true ∧
          (queue.entry k).robId.younger (queue.entry o).robId = false := by
        cases hun : s.unissuedStore queue k with
        | true => exact ⟨k, hbound k hk, hun, Ptr.younger_irrefl _⟩
        | false =>
          refine hshow hmark k (hbound k hk) ?_
          rw [hidden, hk, hi, hstore, hun]
          rfl
      obtain ⟨o, ho, hun, hle⟩ := hcover
      obtain ⟨r, hs, hreach⟩ := LsuIssue.youngestStore_reaches hseen (hin k hk) ho hun hle
      rw [hs, hmark]
      exact ⟨rfl, hreach⟩
    · rw [Function.update_of_ne hm] at hmark
      rw [hvother hm] at hv
      by_cases hkid : k = id
      · -- what enters is behind every load of the queue
        rw [hkid, hrobSelf, hrob hm, Ptr.younger_asymm (hbehind m (.inr hv))] at hyounger
        cases hyounger
      · obtain ⟨_, hem⟩ := hother m hm
        obtain ⟨_, hek⟩ := hother k hkid
        rw [hvother hkid] at hk
        rw [hiother hkid] at hi
        rw [hek] at hstore
        rw [hem, hek] at hyounger ⊢
        exact h.queue.guarded m hv hmark k hk hstore hi hyounger
  · by_cases hjid : j = id
    · rw [hjid, hrobSelf]
      have hsorted := h.sorted
      rw [Sorted, hops] at hsorted
      exact (List.pairwise_cons.mp hsorted).1 a ha
    · rw [hrob hjid]
      refine h.rest.behind a ha j ?_
      rw [hvother hjid] at hj
      exact hj

/-- **The loop** keeps the invariant, and what it holds back is the rest of the pack. -/
theorem Filling.pushPack (h : Filling s base new marked ops) (hheld : new.holdRevPack = [])
    (hshow : ∀ x ∈ s.entering inp i ops new, inp.waits x.op = true →
      ∀ k, k < lsuIssueQueueSize → hidden s.toLsuIssue x.queue k = true →
        Shows s.toLsuIssue x.queue (x.queue.entry k).robId) :
    Inv
      { toLsuIssue := s.pushPack inp i ops new
        base := base
        marked := (s.entering inp i ops new).foldl (mark inp) marked } := by
  induction ops generalizing i new marked with
  | nil =>
    refine ⟨h.queue, ?_, ?_⟩
    · change Sorted new.holdRevPack
      rw [hheld]
      exact List.Pairwise.nil
    · change ∀ op ∈ enabled new.holdRevPack, _
      rw [hheld]
      intro op hop
      cases hop
  | cons op ops ih =>
    unfold LsuIssue.pushPack LsuIssue.entering
    unfold LsuIssue.entering at hshow
    cases hen : op.enable with
    | false =>
      rw [hen] at hshow
      exact ih h.rest hheld hshow
    | true =>
      rw [hen] at hshow
      simp only [Bool.not_true, Bool.false_eq_true, if_false] at hshow ⊢
      cases hid : new.newId with
      | some id =>
        simp only [hid, List.mem_cons, forall_eq_or_imp] at hshow
        refine ih (h.enter hen hid hshow.1) ?_ hshow.2
        rw [(LsuIssue.enter_registers s.toLsuIssue inp i id op new).2.2]
        exact hheld
      | none =>
        refine ⟨⟨h.queue.bound, h.queue.inRob, h.queue.item, h.queue.address, h.queue.awaited,
          h.queue.guarded⟩, h.sorted, fun a ha j hj => h.behind a ha j (.inr hj)⟩

/-! ## Runs -/

/-- **One cycle.** -/
theorem Inv.cycle (h : s.Inv) (hlegal : inp.commitFlush = false → s.Legal inp base)
    (hshow : s.NoneEscapes inp) (hcycle : s.cycle inp base = some s') : s'.Inv := by
  obtain ⟨new, hwoken, rfl⟩ := Option.map_eq_some_iff.mp hcycle
  cases hflush : inp.commitFlush with
  | true =>
    refine inv_empty (fun j => ?_) ?_
    · change (s.runInput new inp).valid j = false
      rw [LsuIssue.runInput, if_pos hflush]
    · change (s.runInput new inp).holdRevPack = []
      rw [LsuIssue.runInput, if_pos hflush]
  | false =>
    have hlegal := hlegal hflush
    have hqueue := h.woken hlegal hshow hflush hwoken
    obtain ⟨hbusy, hheld⟩ := LsuIssue.woken_held hwoken
    have hrob : ∀ o, s.valid o = true → (new.entry o).robId = (s.entry o).robId := fun o ho =>
      (LsuIssue.woken_slot hwoken hflush (h.queue.bound o ho)).robId
    have hvalid : ∀ j, s.valid j = true ∨ new.valid j = true → s.valid j = true := by
      rintro j (hj | hj)
      · exact hj
      · exact LsuIssue.woken_valid hwoken hflush hj
    -- what is offered is what is held, or else what arrives; a flush only takes something out
    have hoffer : ∃ pack, (∀ op ∈ enabled (new.revPack inp), op ∈ enabled pack) ∧
        Sorted (new.revPack inp) ∧ (∀ op ∈ enabled pack, op.robId.Within robSize base) ∧
        ∀ op ∈ enabled pack, ∀ j, s.valid j = true →
          op.robId.younger (s.entry j).robId = true := by
      refine ⟨if s.busy then s.holdRevPack else inp.pack, ?_, ?_, ?_, ?_⟩
      · rw [LsuIssue.revPack, hbusy, hheld, enabled_squashPack, enabled_squashPack]
        intro op hop
        exact (List.mem_filter.mp (List.mem_filter.mp hop).1).1
      · have hsorted : Sorted (if s.busy then s.holdRevPack else inp.pack) := by
          cases hb : s.busy with
          | true => exact h.sorted
          | false => exact (hlegal.ordered hb).imp Ptr.Before.younger
        rw [Sorted, LsuIssue.revPack, hbusy, hheld, enabled_squashPack, enabled_squashPack]
        exact (hsorted.filter _).filter _
      · cases hb : s.busy with
        | true => exact hlegal.held
        | false => exact hlegal.arrived hb
      · cases hb : s.busy with
        | true => exact h.behind
        | false => exact fun op hop j hj => (hlegal.behind hb op hop j (h.queue.bound j hj) hj).younger
    obtain ⟨pack, hsub, hsorted, hin, hbehind⟩ := hoffer
    have hfilling : Filling s base { new with busy := false, holdRevPack := [] } s.marked
        (new.revPack inp) := by
      refine ⟨⟨hqueue.bound, hqueue.inRob, hqueue.item, hqueue.address, hqueue.awaited,
        hqueue.guarded⟩, fun o ho => ?_, fun op hop => hin op (hsub op hop), hsorted,
        fun op hop j hj => ?_⟩
      · change (new.entry o).robId.Within robSize base
        rw [hrob o ho]
        exact hlegal.queued o (h.queue.bound o ho) ho
      · change op.robId.younger (new.entry j).robId = true
        rw [hrob j (hvalid j hj)]
        exact hbehind op (hsub op hop) j (hvalid j hj)
    have hentered : s.entered inp new = s.entering inp 0 (new.revPack inp)
        { new with busy := false, holdRevPack := [] } := by
      rw [entered, hflush]
      rfl
    rw [LsuIssue.runInput, hflush, hentered]
    refine hfilling.pushPack rfl fun x hx hwaits => ?_
    exact hshow.1 new hwoken x (hentered ▸ hx) hwaits

theorem inv_run (h : Run NoneEscapes s) : s.Inv := by
  induction h with
  | init hempty hbusy hheld => exact inv_empty hempty hheld
  | step hrun hlegal hmeets hcycle ih => exact ih.cycle hlegal hmeets hcycle

/-- **In every run in which no store escapes the loads behind it, the wait table is
conservative.** -/
theorem waitTable_conservative (h : Run NoneEscapes s) : s.Conservative := (inv_run h).conservative

/-! ## Runs written out -/

instance (base : Nat) (p q : Ptr) : Decidable (Ptr.Before robSize base p q) :=
  decidable_of_iff
    (∃ d, d < robSize ∧ ∃ e, e < robSize ∧ d < e ∧ p = Ptr.fold robSize (base + d) ∧
      q = Ptr.fold robSize (base + e))
    ⟨fun ⟨d, _, e, he, hde, hp, hq⟩ => ⟨d, e, hde, he, hp, hq⟩,
      fun ⟨d, e, hde, he, hp, hq⟩ => ⟨d, Nat.lt_trans hde he, e, he, hde, hp, hq⟩⟩

instance (base : Nat) (p : Ptr) : Decidable (p.Within robSize base) :=
  inferInstanceAs (Decidable (∃ d, d < robSize ∧ p = Ptr.fold robSize (base + d)))

instance (s : LsuHistory) (inp : LsuIssueInput) (base : Nat) : Decidable (s.Legal inp base) :=
  decidable_of_iff
    ((∀ j, j < lsuIssueQueueSize → s.valid j = true → (s.entry j).robId.Within robSize base) ∧
      (∀ op ∈ enabled s.holdRevPack, op.robId.Within robSize base) ∧
      (s.busy = false → ∀ op ∈ enabled inp.pack, op.robId.Within robSize base) ∧
      (s.busy = false → (enabled inp.pack).Pairwise fun a b =>
        Ptr.Before robSize base a.robId b.robId) ∧
      (s.busy = false → ∀ op ∈ enabled inp.pack, ∀ j, j < lsuIssueQueueSize →
        s.valid j = true → Ptr.Before robSize base (s.entry j).robId op.robId))
    ⟨fun ⟨h₁, h₂, h₃, h₄, h₅⟩ => ⟨h₁, h₂, h₃, h₄, h₅⟩,
      fun ⟨h₁, h₂, h₃, h₄, h₅⟩ => ⟨h₁, h₂, h₃, h₄, h₅⟩⟩

instance (cur new : LsuIssue) (robId : Ptr) : Decidable (Shows cur new robId) :=
  inferInstanceAs (Decidable (∃ o, o < lsuIssueQueueSize ∧ cur.unissuedStore new o = true ∧
    robId.younger (new.entry o).robId = false))

instance (s : LsuHistory) (m : Nat) (robId : Ptr) : Decidable (s.StillWaits m robId) :=
  inferInstanceAs (Decidable ((s.entry m).waitingStore = true ∧
    robId.younger (s.entry m).waitingStoreRobId = false ∧
    ∃ o, o < lsuIssueQueueSize ∧ s.unissuedStore s.toLsuIssue o = true ∧
      (s.entry o).robId.younger (s.entry m).waitingStoreRobId = false))

instance (s : LsuHistory) (inp : LsuIssueInput) : Decidable (s.EnteringShow inp) :=
  inferInstanceAs (Decidable (∀ new ∈ s.woken inp, ∀ x ∈ s.entered inp new,
    inp.waits x.op = true → ∀ k, k < lsuIssueQueueSize →
      hidden s.toLsuIssue x.queue k = true → Shows s.toLsuIssue x.queue (x.queue.entry k).robId))

instance (s : LsuHistory) (inp : LsuIssueInput) : Decidable (s.TakenBackWait inp) :=
  inferInstanceAs (Decidable (∀ k, k < lsuIssueQueueSize → s.takenBack inp k = true →
    ∀ m, m < lsuIssueQueueSize → s.loadBehind inp k m = true →
      s.StillWaits m (s.entry k).robId))

instance (s : LsuHistory) (inp : LsuIssueInput) : Decidable (s.NoneEscapes inp) :=
  inferInstanceAs (Decidable (s.EnteringShow inp ∧ s.TakenBackWait inp))

/-- The cycles of a script, as long as each is legal and meets the condition. -/
def play (C : LsuHistory → LsuIssueInput → Prop) [∀ s inp, Decidable (C s inp)] :
    List (LsuIssueInput × Nat) → LsuHistory → Option LsuHistory
  | [], s => some s
  | (inp, base) :: script, s =>
      if (inp.commitFlush = false → s.Legal inp base) ∧ C s inp then
        (s.cycle inp base).bind (play C script)
      else none

theorem Run.play {C : LsuHistory → LsuIssueInput → Prop} [∀ s inp, Decidable (C s inp)]
    {script : List (LsuIssueInput × Nat)} (h : Run C s)
    (hplay : LsuHistory.play C script s = some s') : Run C s' := by
  induction script generalizing s with
  | nil =>
    obtain rfl := Option.some.inj hplay
    exact h
  | cons step script ih =>
    unfold LsuHistory.play at hplay
    split at hplay
    · rename_i hok
      obtain ⟨next, hnext, hrest⟩ := Option.bind_eq_some_iff.mp hplay
      exact ih (h.step hok.1 hok.2 hnext) hrest
    · cases hplay

theorem Run.reset (C : LsuHistory → LsuIssueInput → Prop) : Run C {} :=
  .init (fun _ => rfl) rfl rfl

/-- `sw x1, 0(x2)`; the register of `x2` is still to be written. -/
def storeOp : OpInfo where
  enable := true
  valid := true
  lastUop := true
  pc := 0x80000000#32
  rs1 := 2
  rs1NeedMap := true
  rs1Phy := 40
  rs2 := 1
  rs2NeedMap := true
  rs2Phy := 1
  op := .sw
  opUnit := .sdu
  subOp := .sdu .sw
  robId := ⟨0, false⟩

/-- `lw x3, 0(x4)` behind it. -/
def loadOp : OpInfo where
  enable := true
  valid := true
  lastUop := true
  pc := 0x80000004#32
  rs1 := 4
  rs1NeedMap := true
  rs1Phy := 4
  arg2Src := .disable
  rd := 3
  rdEnable := true
  needRename := true
  rdPhy := 41
  op := .lw
  opUnit := .lu
  subOp := .lu .lw
  robId := ⟨1, false⟩

/-- A cycle in which a pack arrives; the wait bit of the load is set. -/
def arrives (pack : List OpInfo) : LsuIssueInput where
  phyRegfile id := ⟨0, id != 40, ⟨0, false⟩, true⟩
  waitBit pc := pc == 0x80000004#32
  pack := pack

/-- The store is in the queue when the load enters, and the load waits. -/
theorem waitTable_conservative_loadWaits :
    ∃ s, Run NoneEscapes s ∧ (s.entry 1).waitingStore = true ∧ s.Conservative := by
  have hrun : (play NoneEscapes [(arrives [storeOp], 0), (arrives [loadOp], 0)] {}).map
      (fun s => (s.entry 1).waitingStore) = some true := by decide +kernel
  obtain ⟨s, hs, hwaits⟩ := Option.map_eq_some_iff.mp hrun
  exact ⟨s, (Run.reset _).play hs, hwaits, waitTable_conservative ((Run.reset _).play hs)⟩

/-- The load in slot 1 is issued ahead of the store in slot 0, though its wait bit was set. -/
def overtakes (s : LsuHistory) : Bool :=
  s.selected {} 0 == some 1 && s.marked 1 && s.valid 0 && (s.entry 0).isStore
    && decide (Ptr.Before robSize s.base (s.entry 0).robId (s.entry 1).robId)
    && !(s.entry 0).sauPartIssued

theorem not_conservative_of_overtakes (h : s.overtakes = true) : ¬ s.Conservative := by
  intro hc
  simp only [overtakes, Bool.and_eq_true, Bool.not_eq_true', beq_iff_eq, decide_eq_true_eq] at h
  obtain ⟨⟨⟨⟨⟨hsel, hmarked⟩, hvalid⟩, hstore⟩, hbefore⟩, hnot⟩ := h
  rw [hc.heldBack {} 1 hsel hmarked 0 ⟨hvalid, hstore, hbefore⟩] at hnot
  cases hnot

/-- **A load overtakes the store it has arrived with.** -/
theorem waitTable_samePack : ¬ ∀ s, Run (fun _ _ => True) s → s.Conservative := by
  intro h
  have hrun : (play (fun _ _ => True) [(arrives [storeOp, loadOp], 0)] {}).map overtakes
      = some true := by decide +kernel
  obtain ⟨s, hs, hover⟩ := Option.map_eq_some_iff.mp hrun
  exact not_conservative_of_overtakes hover (h s ((Run.reset _).play hs))

/-- The register of `x2` is woken by a load that is in its second stage. -/
def wokenEarly : LsuIssueInput :=
  { arrives [loadOp] with
    integer := [{ wakeupValid := true, wakeupRd := 40, wakeupLpv := 2 }] }

/-- **A load overtakes a store that a replay has taken back**, though every store shows when the
load enters: it has been released when the store issued. -/
theorem waitTable_takenBack : ¬ ∀ s, Run EnteringShow s → s.Conservative := by
  intro h
  have hrun : (play EnteringShow
      [(arrives [storeOp], 0), (wokenEarly, 0), (arrives [], 0),
        ({ arrives [] with lu := { replay := true } }, 0)] {}).map overtakes = some true := by
    decide +kernel
  obtain ⟨s, hs, hover⟩ := Option.map_eq_some_iff.mp hrun
  exact not_conservative_of_overtakes hover (h s ((Run.reset _).play hs))

end LsuHistory

end DreamCore
