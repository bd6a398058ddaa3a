import DreamCore.Backend.Merging
import DreamCore.Backend.Vectors

/-!
# The two parts of a store

A store leaves its queue in two parts, and the one that is issued last completes it.
Between the queue and commit they keep their order: with the part that completes a
store, or ahead of it, there is its address part, and behind it there is nothing of
the store.

A replay takes both back, one in the queue and one in register read. About a store
that has issued the two always agree. About an address that has gone ahead they may
not: its vector was made with an operand the data part still waits for, and when that
operand is woken anew the queue forgets what the address hangs on. Where they agree
about addresses too, the order is kept.
-/

namespace DreamCore

open Ring

namespace LsuPipe

/-- The queue takes the address of the store `robId` back in a replay. -/
def TakesBack (p : LsuPipe) (robId : Ptr) : Prop :=
  ∃ j, j < lsuIssueQueueSize ∧ p.issue.HoldsStore j robId ∧ (p.issue.entry j).atRisk = true

/-- **The queue and register read agree about a replay**: an address that register read drops, and
that no flush squashes, is one the queue takes back. -/
def Agrees (p : LsuPipe) (inp : LsuIssueInput) : Prop :=
  ∀ a ∈ p.rev, a.enable = true → a.opUnit = .sau → LsuReadreg.replayed inp.lu a = true →
    inp.squashes a.robId = false → p.TakesBack a.robId

instance (s : LsuIssue) (j : Nat) (robId : Ptr) : Decidable (s.HoldsStore j robId) :=
  decidable_of_iff (s.valid j = true ∧ (s.entry j).isStore = true ∧ (s.entry j).robId = robId)
    ⟨fun h => ⟨h.1, h.2.1, h.2.2⟩, fun h => ⟨h.valid, h.isStore, h.robId⟩⟩

instance (p : LsuPipe) (robId : Ptr) : Decidable (p.TakesBack robId) :=
  inferInstanceAs (Decidable (∃ j, j < lsuIssueQueueSize ∧ _ ∧ _))

instance (p : LsuPipe) (inp : LsuIssueInput) : Decidable (p.Agrees inp) :=
  inferInstanceAs (Decidable (∀ a ∈ p.rev, _ → _ → _ → _ → _))

/-- The parts of one store that stand before register read have one vector. -/
def Alike (p : LsuPipe) : Prop :=
  ∀ a ∈ p.rev, ∀ b ∈ p.rev, ∀ robId, a.toOpInfo.IsPart robId → b.toOpInfo.IsPart robId →
    a.lpv = b.lpv

/-- **A cycle without a flush of commit**, in which the queue and register read agree. -/
structure Turn (p : LsuPipe) (inp : LsuIssueInput) (p' : LsuPipe) : Prop where
  cycle : p.cycle inp = some p'
  commit : inp.commitFlush = false
  sau : inp.sau.flush = false
  agrees : p.Agrees inp
  alike : p.Alike
  paced : ∃ late, p.Paced late
  queue : p.issue.Fine (p.issue.offered inp)

/-! ## The places of a part -/

/-- What is at a place; the last one is commit, where `reports` have come. -/
def places (p : LsuPipe) (reports : List ExecuteWbPack) : Nat → List OpInfo
  | 3 => reports.map fun rev => rev.toOpInfo
  | n => p.parts n

/-- A part of the store `robId` is at a place. -/
def PartAt (p : LsuPipe) (reports : List ExecuteWbPack) (robId : Ptr) (n : Nat) (op : OpInfo) :
    Prop :=
  op ∈ p.places reports n ∧ op.IsPart robId

/-- What has come to commit for the store `robId` in a cycle has been in a port. -/
structure Reports (p : LsuPipe) (robId : Ptr) (reports reports' : List ExecuteWbPack) : Prop where
  arrived : ∀ op, op.IsPart robId → (op ∈ reports'.map (fun rev => rev.toOpInfo) ↔
    op ∈ reports.map (fun rev => rev.toOpInfo) ∨ op ∈ p.parts 2)

variable {p p' : LsuPipe} {inp : LsuIssueInput} {robId : Ptr} {op op' : OpInfo} {n : Nat}
  {reports reports' : List ExecuteWbPack}

/-- A part has moved from a place to the next one, or has just been issued. -/
inductive Comes (p : LsuPipe) (inp : LsuIssueInput) (reports : List ExecuteWbPack) (robId : Ptr)
    (n : Nat) (op' : OpInfo) : Prop where
  | moved (m : Nat) (op : OpInfo) : n = next inp m → p.PartAt reports robId m op →
      op.SamePart op' → (m = 0 → ∃ a ∈ p.rev, a.toOpInfo = op ∧
        LsuReadreg.replayed inp.lu a = false) → Comes p inp reports robId n op'
  | issued (i j : Nat) : n = 0 → p.issues inp = true → i < lsuIssueWidth →
      LsuIssue.SendsPart p.issue (p.sees inp) i j →
      (p.issue.sent (p.sees inp) i).toOpInfo = op' → Comes p inp reports robId n op'

theorem places_of_ne (p : LsuPipe) (reports : List ExecuteWbPack) (hn : n ≠ 3) :
    p.places reports n = p.parts n := by
  unfold places
  split
  · exact absurd rfl hn
  · rfl

/-- **Where a part that is at a place has come from.** -/
theorem Turn.comes (ht : p.Turn inp p') (hr : p.Reports robId reports reports')
    (h : p'.PartAt reports' robId n op') : p.Comes inp reports robId n op' := by
  obtain ⟨hop, hpart⟩ := h
  by_cases hn : n = 3
  · subst hn
    rcases (hr.arrived op' hpart).mp hop with hop | hop
    · exact .moved 3 op' rfl ⟨hop, hpart⟩ ⟨rfl, rfl, rfl, rfl⟩ fun hn => by cases hn
    · exact .moved 2 op' rfl ⟨hop, hpart⟩ ⟨rfl, rfl, rfl, rfl⟩ fun hn => by cases hn
  · rw [places_of_ne p' reports' hn] at hop
    cases part_from ht.cycle ht.commit ht.sau hop hpart with
    | moved m op hm hnm _ hold hsame hrev =>
      refine .moved m op hnm ⟨?_, hsame.isPart.mp hpart⟩ hsame fun h0 => ?_
      · rw [places_of_ne p reports (by omega)]
        exact hold
      · obtain ⟨-, a, ha, he, hs⟩ := hrev h0
        rw [LsuReadreg.skips, Bool.or_eq_false_iff] at hs
        exact ⟨a, ha, he, hs.2⟩
    | issued i hn0 hissues hi hsent =>
      have hsentPart : (p.issue.sent (p.sees inp) i).toOpInfo.IsPart robId := by
        rw [hsent]
        exact hpart
      obtain ⟨j, hj⟩ := LsuIssue.sent_part (p.sees inp) ht.queue hi hsentPart.1 hsentPart.2.1
      exact .issued i j hn0 hissues hi hj hsent

/-- **Where a part goes** that register read does not drop. -/
theorem Turn.goes (ht : p.Turn inp p') (hr : p.Reports robId reports reports')
    (hkeep : inp.squashes robId = false) (h : p.PartAt reports robId n op)
    (hpass : n = 0 → ∀ a ∈ p.rev, a.toOpInfo.IsPart robId →
      LsuReadreg.replayed inp.lu a = false) :
    ∃ op', p'.PartAt reports' robId (next inp n) op' ∧ op.SamePart op' := by
  obtain ⟨hop, hpart⟩ := h
  match n with
  | 0 | 1 =>
    rw [places_of_ne p reports (by decide)] at hop
    obtain ⟨op', hop', hsame⟩ := part_to ht.cycle ht.commit (by decide) hop hpart hkeep hpass
    refine ⟨op', ⟨?_, hsame.isPart.mpr hpart⟩, hsame⟩
    rw [places_of_ne]
    · exact hop'
    · unfold next
      grind
  | 2 => exact ⟨op, ⟨(hr.arrived op hpart).mpr (.inr hop), hpart⟩, rfl, rfl, rfl, rfl⟩
  | 3 => exact ⟨op, ⟨(hr.arrived op hpart).mpr (.inl hop), hpart⟩, rfl, rfl, rfl, rfl⟩
  | n + 4 => cases hop

/-- What the queue issues on port `i` stands before register read in the next cycle. -/
theorem Turn.issues_part (ht : p.Turn inp p') {i j : Nat} (hissues : p.issues inp = true)
    (hj : LsuIssue.SendsPart p.issue (p.sees inp) i j) (hrobId : (p.issue.entry j).robId = robId) :
    p'.PartAt reports' robId 0 (p.issue.sent (p.sees inp) i).toOpInfo := by
  have hi : i < lsuIssueWidth := by
    unfold lsuIssueWidth
    have := hj.port
    omega
  have hen : (p.issue.sent (p.sees inp) i).enable = true := hj.enable ht.queue
  have hstall : inp.lu.stall = false := by
    simp only [issues, Bool.and_eq_true, Bool.not_eq_true'] at hissues
    exact hissues.2
  refine ⟨List.mem_map_of_mem ?_, hen, ?_, ?_⟩
  · exact (rev_issued ht.cycle ht.commit hstall hen).mpr ⟨hissues, i, hi, rfl⟩
  · rw [hj.unit]
    split <;> rfl
  · rw [← hj.holds.robId, hrobId]

/-! ## One store -/

/-- **The order of what there is of the store `robId`.** -/
structure Ordered (p : LsuPipe) (reports : List ExecuteWbPack) (robId : Ptr) : Prop where
  /-- An address that has been issued is on its way. -/
  address : ∀ j, p.issue.HoldsStore j robId → (p.issue.entry j).sauPartIssued = true →
    ∃ n op, p.PartAt reports robId n op ∧ op.opUnit = .sau
  /-- It is with the part that completes the store, or ahead of it. -/
  first : ∀ n op, p.PartAt reports robId n op → op.lastUop = true →
    ∃ m op', n ≤ m ∧ p.PartAt reports robId m op' ∧ op'.opUnit = .sau
  /-- Behind the part that completes the store there is nothing of it. -/
  behind : ∀ n op, p.PartAt reports robId n op → op.lastUop = true →
    ∀ m op', m < n → ¬ p.PartAt reports robId m op'
  issued : ∀ n op, p.PartAt reports robId n op → op.lastUop = true →
    ∀ j, p.issue.HoldsStore j robId → p.issue.issued j = true

/-- Nothing of the store has left the queue, or is in it. -/
structure Untouched (p : LsuPipe) (reports : List ExecuteWbPack) (robId : Ptr) : Prop where
  slot : ∀ j, ¬ p.issue.HoldsStore j robId
  part : ∀ n op, ¬ p.PartAt reports robId n op

theorem Untouched.ordered (h : p.Untouched reports robId) : p.Ordered reports robId where
  address j hj := absurd hj (h.slot j)
  first n op hop := absurd hop (h.part n op)
  behind n op hop := absurd hop (h.part n op)
  issued n op hop := absurd hop (h.part n op)

/-- What one part is spared, all parts of its store are. -/
theorem Turn.spared (ht : p.Turn inp p') {a b : IntegerIssueOp} (ha : a ∈ p.rev)
    (hpart : a.toOpInfo.IsPart robId) (hb : b ∈ p.rev) (hpart' : b.toOpInfo.IsPart robId)
    (hno : LsuReadreg.replayed inp.lu a = false) : LsuReadreg.replayed inp.lu b = false := by
  unfold LsuReadreg.replayed at hno ⊢
  rw [← ht.alike a ha b hb robId hpart hpart', hno]

/-- Register read drops no address that the queue does not take back. -/
theorem Turn.address_spared (ht : p.Turn inp p') {j : Nat} (hj : p.issue.HoldsStore j robId)
    (hkeep : inp.squashes robId = false)
    (hsafe : (inp.lu.replay && (p.issue.entry j).atRisk) = false) {a : IntegerIssueOp}
    (ha : a ∈ p.rev) (hpart : a.toOpInfo.IsPart robId) (hu : a.opUnit = .sau) :
    LsuReadreg.replayed inp.lu a = false := by
  rw [Bool.eq_false_iff]
  intro hrep
  have hreplay : inp.lu.replay = true := by
    unfold LsuReadreg.replayed at hrep
    exact (Bool.and_eq_true _ _ ▸ hrep).1
  obtain ⟨k, -, hk, hrisk⟩ := ht.agrees a ha hpart.1 hu hrep (hpart.2.2 ▸ hkeep)
  rw [ht.queue.unique k j robId (hpart.2.2 ▸ hk) hj] at hrisk
  rw [hreplay, hrisk] at hsafe
  cases hsafe

/-- An address that has been issued goes on, unless the queue takes it back. -/
theorem Ordered.address_goes (h : p.Ordered reports robId) (ht : p.Turn inp p')
    (hr : p.Reports robId reports reports') (hkeep : inp.squashes robId = false) {j : Nat}
    (hj : p.issue.HoldsStore j robId) (haddr : (p.issue.entry j).sauPartIssued = true)
    (hsafe : (inp.lu.replay && (p.issue.entry j).atRisk) = false) :
    ∃ n op, p'.PartAt reports' robId n op ∧ op.opUnit = .sau := by
  obtain ⟨n, op, hat, hu⟩ := h.address j hj haddr
  obtain ⟨op', hat', hsame⟩ := ht.goes hr hkeep hat fun h0 b hb hpart => by
    subst h0
    obtain ⟨a, ha, rfl⟩ := List.mem_map.mp hat.1
    exact ht.spared ha hat.2 hb hpart (ht.address_spared hj hkeep hsafe ha hat.2 hu)
  exact ⟨_, op', hat', hsame.opUnit.trans hu⟩

/-- A store in the queue has been there, or has just entered. -/
theorem Turn.slot (ht : p.Turn inp p') {j : Nat} (h : p'.issue.HoldsStore j robId) :
    (p.issue.HoldsStore j robId ∧ LsuIssue.Stays p.issue (p.sees inp) p'.issue j) ∨
      ∃ op ∈ enabled (p.issue.offered inp), inp.squashes op.robId = false ∧ op.opUnit = .sdu ∧
        op.robId = robId ∧ LsuIssue.Given p'.issue j op := by
  have hcycled := LsuIssue.cycle_cycled (p.sees inp) ht.queue (cycle_eq_some ht.cycle).2.1
    ht.commit
  rcases hcycled.slot j h.valid with hs | ⟨op, hop, hkeep, hg⟩
  · exact .inl ⟨⟨hs.valid, hs.isStore ▸ h.isStore, hs.robId ▸ h.robId⟩, hs⟩
  · obtain ⟨hu, hid⟩ := hg.holdsStore h
    exact .inr ⟨op, hop, hkeep, hu, hid, hg⟩

/-- **A cycle keeps the order.** -/
theorem Ordered.turn (h : p.Ordered reports robId) (ht : p.Turn inp p')
    (hr : p.Reports robId reports reports') (hkeep : inp.squashes robId = false)
    (hfresh : ∀ op ∈ enabled (p.issue.offered inp), op.opUnit = .sdu → op.robId = robId →
      p.Untouched reports robId) : p'.Ordered reports' robId where
  address j hj haddr := by
    rcases ht.slot hj with ⟨hold, hs⟩ | ⟨op, -, -, -, -, hg⟩
    · obtain ⟨hwas, hsafe⟩ := hs.address hold.isStore haddr
      rcases hwas with hwas | ⟨hactive, hsel⟩
      · exact h.address_goes ht hr hkeep hold hwas hsafe
      · have hsends := LsuIssue.selected_part (p.sees inp) ht.queue (.inl rfl) hsel
        have hissues : p.issues inp = true := by
          simpa [issues, LsuIssue.active, sees, and_assoc] using hactive
        exact ⟨0, _, ht.issues_part hissues hsends hold.robId, hsends.unit⟩
    · rw [hg.parts.1] at haddr
      cases haddr
  first n op hat hlast := by
    cases ht.comes hr hat with
    | moved n₀ op₀ hn hat₀ hsame hrev =>
      obtain ⟨m, op₁, hm, hat₁, hu⟩ := h.first n₀ op₀ hat₀ (hsame.lastUop ▸ hlast)
      -- what stands with it before register read is not dropped either
      obtain ⟨op', hat', hsame'⟩ := ht.goes hr hkeep hat₁ fun h0 b hb hpart => by
        obtain ⟨a, ha, rfl, hno⟩ := hrev (by omega)
        exact ht.spared ha hat₀.2 hb hpart hno
      exact ⟨_, op', hn ▸ next_mono inp hm, hat', hsame'.opUnit.trans hu⟩
    | issued i j hn hissues hi hsends hsent =>
      subst hn hsent
      have hrobId : (p.issue.entry j).robId = robId := hsends.holds.robId.trans hat.2.2.2
      have hj : p.issue.HoldsStore j robId := ⟨hsends.holds.valid, hsends.holds.isStore, hrobId⟩
      rcases hsends.port with rfl | rfl
      · exact ⟨0, _, Nat.le_refl _, hat, hsends.unit⟩
      · rw [hsends.lastUop] at hlast
        change ((p.issue.entry j).sauPartIssued
          || p.issue.selected (p.sees inp) 1 == some j) = true at hlast
        rw [Bool.or_eq_true, beq_iff_eq] at hlast
        rcases hlast with haddr | hsel
        · obtain ⟨m, op', hat', hu⟩ := h.address_goes ht hr hkeep hj haddr hsends.awake.2.2
          exact ⟨m, op', Nat.zero_le _, hat', hu⟩
        · have hsends' := LsuIssue.selected_part (p.sees inp) ht.queue (.inl rfl) hsel
          exact ⟨0, _, Nat.le_refl _, ht.issues_part hissues hsends' hrobId, hsends'.unit⟩
  behind n op hat hlast m op' hm hat' := by
    cases ht.comes hr hat with
    | moved n₀ op₀ hn hat₀ hsame =>
      have hlast₀ : op₀.lastUop = true := hsame.lastUop ▸ hlast
      cases ht.comes hr hat' with
      | moved m₀ op₁ hm' hat₁ =>
        refine h.behind n₀ op₀ hat₀ hlast₀ m₀ op₁ ?_ hat₁
        by_contra hge
        have := next_mono inp (Nat.le_of_not_lt hge)
        omega
      | issued i j _ _ _ hsends hsent =>
        subst hsent
        have hj := h.issued n₀ op₀ hat₀ hlast₀ j
          ⟨hsends.holds.valid, hsends.holds.isStore, hsends.holds.robId.trans hat'.2.2.2⟩
        rw [hsends.awake.1] at hj
        cases hj
    | issued => omega
  issued n op hat hlast j hj := by
    rcases ht.slot hj with ⟨hold, hs⟩ | ⟨op', hop', -, hu, hid, -⟩
    · cases ht.comes hr hat with
      | moved n₀ op₀ _ hat₀ hsame hrev =>
        have hlast₀ : op₀.lastUop = true := hsame.lastUop ▸ hlast
        have hissued := h.issued n₀ op₀ hat₀ hlast₀ j hold
        by_contra hagain
        have hrep := hs.issued hissued (Bool.eq_false_iff.mpr hagain)
        obtain ⟨_, hpaced⟩ := ht.paced
        obtain ⟨a, ha, hpart, -, hdropped⟩ := hpaced.last hold hissued
        by_cases h0 : n₀ = 0
        · obtain ⟨b, hb, rfl, hno⟩ := hrev h0
          have hspared := ht.spared hb hat₀.2 ha hpart hno
          rw [hdropped inp.lu hrep] at hspared
          cases hspared
        · exact h.behind n₀ op₀ hat₀ hlast₀ 0 a.toOpInfo (by omega) ⟨List.mem_map_of_mem ha, hpart⟩
      | issued i k hn hissues hi hsends hsent =>
        subst hsent
        have hk : p.issue.HoldsStore k robId :=
          ⟨hsends.holds.valid, hsends.holds.isStore, hsends.holds.robId.trans hat.2.2.2⟩
        obtain rfl := ht.queue.unique k j robId hk hold
        refine hs.last ?_ i hsends.port hsends.selected ?_
        · simpa [issues, LsuIssue.active, sees, and_assoc] using hissues
        · rw [← hsends.lastUop]
          exact hlast
    · have hun := hfresh op' hop' hu hid
      cases ht.comes hr hat with
      | moved n₀ op₀ _ hat₀ => exact absurd hat₀ (hun.part n₀ op₀)
      | issued i k _ _ _ hsends hsent =>
        subst hsent
        exact absurd
          ⟨hsends.holds.valid, hsends.holds.isStore, hsends.holds.robId.trans hat.2.2.2⟩
          (hun.slot k)

/-- What has not been touched stays so as long as it does not enter the queue. -/
theorem Untouched.turn (h : p.Untouched reports robId) (ht : p.Turn inp p')
    (hr : p.Reports robId reports reports')
    (hout : ∀ op ∈ enabled (p.issue.offered inp), op.opUnit = .sdu → op.robId = robId →
      ∀ j, ¬ p'.issue.HoldsStore j robId) : p'.Untouched reports' robId where
  slot j hj := by
    rcases ht.slot hj with ⟨hold, -⟩ | ⟨op, hop, -, hu, hid, -⟩
    · exact h.slot j hold
    · exact hout op hop hu hid j hj
  part n op hat := by
    cases ht.comes hr hat with
    | moved m op₀ _ hat₀ => exact h.part m op₀ hat₀
    | issued i k _ _ _ hsends hsent =>
      subst hsent
      exact h.slot k ⟨hsends.holds.valid, hsends.holds.isStore, hsends.holds.robId.trans hat.2.2.2⟩

/-- What has reported its last part is finished: nothing of it is in the queue, or on its way. -/
theorem Ordered.done (h : p.Ordered reports robId) {late : Bool} (hpaced : p.Paced late)
    (hat : p.PartAt reports robId 3 op) (hlast : op.lastUop = true) :
    (∀ j, ¬ p.issue.HoldsStore j robId) ∧ ∀ n op', n < 3 → ¬ p.PartAt reports robId n op' := by
  have hbehind := h.behind 3 op hat hlast
  refine ⟨fun j hj => ?_, fun n op' hn => hbehind n op' hn⟩
  obtain ⟨a, ha, hpart, -⟩ := hpaced.last hj (h.issued 3 op hat hlast j hj)
  exact hbehind 0 a.toOpInfo (by decide) ⟨List.mem_map_of_mem ha, hpart⟩

/-- Parts that are issued together come from one slot, and have its vector. -/
theorem Turn.alike_next (ht : p.Turn inp p') : p'.Alike := by
  intro a ha b hb robId hpart hpart'
  cases hstall : inp.lu.stall with
  | true =>
    exact ht.alike a ((rev_stalled ht.cycle ht.commit hstall hpart.1).mp ha).1 b
      ((rev_stalled ht.cycle ht.commit hstall hpart'.1).mp hb).1 robId hpart hpart'
  | false =>
    obtain ⟨-, i, hi, rfl⟩ := (rev_issued ht.cycle ht.commit hstall hpart.1).mp ha
    obtain ⟨-, k, hk, rfl⟩ := (rev_issued ht.cycle ht.commit hstall hpart'.1).mp hb
    obtain ⟨j, hj⟩ := LsuIssue.sent_part (p.sees inp) ht.queue hi hpart.1 hpart.2.1
    obtain ⟨l, hl⟩ := LsuIssue.sent_part (p.sees inp) ht.queue hk hpart'.1 hpart'.2.1
    rw [hj.lpv, hl.lpv, ht.queue.unique j l robId (hpart.2.2 ▸ hj.holds) (hpart'.2.2 ▸ hl.holds)]

end LsuPipe

/-! ## All stores -/

/-- The address part of a store, as the unit receives it, does not fit its size. -/
def ReadregExecutePack.misaligned (op : ReadregExecutePack) : Bool :=
  !checkAlign op.effectiveAddr (sauSize op)

/-- **What the queue sends** for the store `info`: its address part, or its data part. -/
inductive OpInfo.Splits (info : OpInfo) : OpInfo → Prop where
  | address (last : Bool) : Splits info { info.toIssue with
      lastUop := last
      opUnit := .sau
      subOp := LsuIssue.addressOp info.toIssue.subOp }
  | data (last : Bool) : Splits info { info.toIssue with lastUop := last }

/-- **A result of a store** is one of its two parts, as the unit of the part computes it. -/
inductive OpInfo.PartResult (info : OpInfo) : ExecuteWbPack → Prop where
  | address (op : ReadregExecutePack) : OperandsOf info op → op.opUnit = .sau → op.enable = true →
      op.hasException = info.hasException → PartResult info (sauCompute op)
  | data (op : ReadregExecutePack) : OperandsOf info op → op.opUnit = .sdu → op.enable = true →
      op.hasException = info.hasException → PartResult info (sduCompute op)

section Results

variable {info op : OpInfo} {pack : ReadregExecutePack} {rev : ExecuteWbPack}

/-- Dispatch changes nothing about a store but where it comes from. -/
theorem OpInfo.toIssue_hasException (info : OpInfo) :
    info.toIssue.hasException = info.hasException := by
  unfold toIssue
  split <;> rfl

theorem OpInfo.toIssue_valid (info : OpInfo) : info.toIssue.valid = info.valid := by
  unfold toIssue
  split <;> rfl

theorem OpInfo.Splits.robId (h : info.Splits op) : op.robId = info.robId := by
  cases h <;> exact info.toIssue_robId

theorem OpInfo.Splits.enable (h : info.Splits op) : op.enable = info.enable := by
  cases h <;> exact info.toIssue_enable

theorem OpInfo.Splits.hasException (h : info.Splits op) : op.hasException = info.hasException := by
  cases h <;> exact info.toIssue_hasException

theorem OpInfo.Splits.operands (h : info.Splits pack.toOpInfo) (hu : info.opUnit = .sdu) :
    OperandsOf info pack := by
  have hunit : pack.opUnit = .sau ∨ pack.opUnit = .sdu := by
    generalize pack.toOpInfo = op at h
    cases h with
    | address => exact .inl rfl
    | data => exact .inr (info.toIssue_opUnit.trans hu)
  refine ⟨h.robId, ?_, ?_, ?_⟩
  · generalize pack.toOpInfo = op at h
    cases h <;> rfl
  · rw [hu]
    rcases hunit with h | h
    · rw [h]
      decide
    · rw [h]
  · rw [hu]
    rcases hunit with h | h
    · rw [h]
      rfl
    · rw [h]

theorem OpInfo.Splits.address_result (h : info.Splits pack.toOpInfo) (hinfo : info.opUnit = .sdu)
    (hu : pack.opUnit = .sau) (hen : pack.enable = true) : info.PartResult (sauCompute pack) :=
  .address pack (h.operands hinfo) hu hen h.hasException

theorem OpInfo.Splits.data_result (h : info.Splits pack.toOpInfo) (hinfo : info.opUnit = .sdu)
    (hu : pack.opUnit = .sdu) (hen : pack.enable = true) : info.PartResult (sduCompute pack) :=
  .data pack (h.operands hinfo) hu hen h.hasException

/-- A result of a store is a part of it. -/
theorem OpInfo.PartResult.isPart (h : info.PartResult rev) : rev.toOpInfo.IsPart info.robId := by
  cases h with
  | address op hop hu hen _ =>
    refine (LsuPipe.sauCompute_samePart op).isPart.mpr ⟨hen, ?_, hop.robId⟩
    rw [hu]
    rfl
  | data op hop hu hen _ =>
    refine (LsuPipe.sduCompute_samePart op).isPart.mpr ⟨hen, ?_, hop.robId⟩
    rw [hu]
    rfl

end Results

/-- The instructions in flight, and by the slot of the ROB whether dispatch has handed them to the
queue and what has been reported of them. -/
structure StoreRecord where
  flight : List OpInfo
  handed : Nat → Bool
  reports : Nat → List ExecuteWbPack

/-- `info` is the store `robId`, and has been handed to the queue. -/
structure StoreRecord.Handed (c : StoreRecord) (info : OpInfo) (robId : Ptr) : Prop where
  flight : info ∈ c.flight
  unit : info.opUnit = .sdu
  handed : c.handed robId.id = true
  robId : info.robId = robId

namespace LsuPipe

/-- Dispatch hands the instruction of the slot to the queue. -/
def hands (p : LsuPipe) (inp : LsuIssueInput) (slot : Nat) : Bool :=
  !p.issue.busy && (enabled inp.pack).any fun op => op.robId.id == slot

/-- **What is in the LSU of a store** comes from one that is in flight. -/
structure Sourced (p : LsuPipe) (c : StoreRecord) : Prop where
  slot : ∀ j robId, p.issue.HoldsStore j robId →
    ∃ info, c.Handed info robId ∧ (p.issue.entry j).item = info.toIssue
  rev : ∀ a ∈ p.rev, ∀ robId, a.toOpInfo.IsPart robId →
    ∃ info, c.Handed info robId ∧ info.Splits a.toOpInfo
  handshake : ∀ unit pack, (unit = .sau ∨ unit = .sdu) → p.hdff unit = some pack →
    LsuReadreg.unitOf pack.opUnit = some unit ∧ pack.enable = true ∧
      ∃ info, c.Handed info pack.robId ∧ info.Splits pack.toOpInfo
  port : ∀ rev, rev = p.sau ∨ rev = p.sdu → rev.enable = true →
    ∃ info, c.Handed info rev.robId ∧ info.PartResult rev

/-- **Every store in flight is in order.** -/
structure Orderly (p : LsuPipe) (c : StoreRecord) : Prop where
  queue : p.issue.Fine p.issue.holdRevPack
  alike : p.Alike
  sourced : p.Sourced c
  held : ∀ op ∈ enabled p.issue.holdRevPack, op.opUnit = .sdu →
    (∃ info, c.Handed info op.robId ∧ op = info.toIssue) ∧
      p.Untouched (c.reports op.robId.id) op.robId
  results : ∀ info ∈ c.flight, info.opUnit = .sdu → ∀ rev ∈ c.reports info.robId.id,
    info.PartResult rev
  fresh : ∀ info ∈ c.flight, info.opUnit = .sdu → c.handed info.robId.id = false →
    c.reports info.robId.id = []
  ordered : ∀ info ∈ c.flight, info.opUnit = .sdu →
    p.Ordered (c.reports info.robId.id) info.robId

/-- What a cycle makes of the record of an instruction that stays in flight. -/
structure Carried (p : LsuPipe) (inp : LsuIssueInput) (c c' : StoreRecord) (robId : Ptr) : Prop where
  keep : inp.squashes robId = false
  handed : c'.handed robId.id = (c.handed robId.id || p.hands inp robId.id)
  reports : c'.reports robId.id = c.reports robId.id ++ resultsAt [p.sau, p.sdu] robId.id

/-- **What the rest of the core does in a cycle without a flush of commit.** Dispatch hands each
store to the queue once. A store stays in flight unless it is squashed or has reported its last
part. -/
structure Passes (p : LsuPipe) (inp : LsuIssueInput) (p' : LsuPipe) (c c' : StoreRecord) :
    Prop where
  cycle : p.cycle inp = some p'
  commit : inp.commitFlush = false
  sau : inp.sau.flush = false
  agrees : p.Agrees inp
  paced : ∃ late, p.Paced late
  distinct : ∀ a ∈ c.flight, ∀ b ∈ c.flight, a.robId.id = b.robId.id → a = b
  pack : p.issue.busy = false → ∀ op ∈ enabled inp.pack, LsuIssue.IsLsu op ∧ (op.opUnit = .sdu →
    ∃ info ∈ c.flight, info.opUnit = .sdu ∧ c.handed info.robId.id = false ∧ op = info.toIssue)
  once : p.issue.busy = false → (enabled inp.pack).Pairwise fun a b => a.robId ≠ b.robId
  flight : ∀ info ∈ c'.flight, info.opUnit = .sdu →
    (info ∈ c.flight ∧ p.Carried inp c c' info.robId) ∨
      (c'.handed info.robId.id = false ∧ c'.reports info.robId.id = [])
  stays : ∀ info ∈ c.flight, info.opUnit = .sdu → inp.squashes info.robId = false →
    (∀ rev ∈ c.reports info.robId.id, rev.lastUop = false) →
    info ∈ c'.flight ∧ p.Carried inp c c' info.robId

variable {p p' : LsuPipe} {inp : LsuIssueInput} {c c' : StoreRecord} {robId : Ptr} {op : OpInfo}
  {info : OpInfo} {reports : List ExecuteWbPack}

/-- What stands before commit belongs to a store that has been handed to the queue. -/
theorem Sourced.part (h : p.Sourced c) {n : Nat} (hn : n < 3)
    (hat : p.PartAt reports robId n op) : ∃ info, c.Handed info robId := by
  obtain ⟨hop, hpart⟩ := hat
  rw [places_of_ne p reports (by omega)] at hop
  match n with
  | 0 =>
    obtain ⟨a, ha, rfl⟩ := List.mem_map.mp hop
    exact (h.rev a ha robId hpart).imp fun _ hi => hi.1
  | 1 =>
    obtain ⟨unit, hunit, pack, hpack, rfl⟩ := mem_parts_one.mp hop
    obtain ⟨-, -, info, hi, -⟩ := h.handshake unit pack hunit hpack
    exact ⟨info, hpart.2.2 ▸ hi⟩
  | 2 =>
    rcases mem_parts_two.mp hop with rfl | rfl
    · obtain ⟨info, hi, -⟩ := h.port p.sau (.inl rfl) hpart.1
      exact ⟨info, hpart.2.2 ▸ hi⟩
    · obtain ⟨info, hi, -⟩ := h.port p.sdu (.inr rfl) hpart.1
      exact ⟨info, hpart.2.2 ▸ hi⟩
  | n + 3 => omega

/-- A store that has not been handed to the queue is nowhere. -/
theorem Sourced.untouched (h : p.Sourced c) (hno : c.handed robId.id = false) :
    p.Untouched [] robId where
  slot j hj := by
    obtain ⟨info, hi, -⟩ := h.slot j robId hj
    rw [hi.handed] at hno
    cases hno
  part n op hat := by
    by_cases hn : n < 3
    · obtain ⟨info, hi⟩ := h.part hn hat
      rw [hi.handed] at hno
      cases hno
    · match n with
      | 3 => cases hat.1
      | n + 4 => cases hat.1
      | 0 | 1 | 2 => omega

/-! ### What stays -/

theorem Orderly.resultsAt_part (h : p.Orderly c) (hp : p.Passes inp p' c c')
    (hinfo : info ∈ c.flight) {rev : ExecuteWbPack}
    (hrev : rev ∈ resultsAt [p.sau, p.sdu] info.robId.id) :
    info.PartResult rev ∧ c.Handed info rev.robId := by
  obtain ⟨hmem, hrev⟩ := List.mem_filter.mp hrev
  rw [Bool.and_eq_true, beq_iff_eq] at hrev
  obtain ⟨info', hi, hres⟩ := h.sourced.port rev (by simpa using hmem) hrev.1
  have hsame : info' = info := by
    refine hp.distinct _ hi.flight _ hinfo ?_
    rw [hi.robId, hrev.2]
  subst hsame
  exact ⟨hres, hi⟩

/-- The reports of a store that stays grow by what stands in the ports. -/
theorem Carried.reports_next (h : p.Carried inp c c' robId) :
    p.Reports robId (c.reports robId.id) (c'.reports robId.id) where
  arrived op hpart := by
    rw [h.reports, List.map_append, List.mem_append]
    refine or_congr_right ⟨fun hop => ?_, fun hop => ?_⟩
    · obtain ⟨rev, hrev, rfl⟩ := List.mem_map.mp hop
      have hmem := (List.mem_filter.mp hrev).1
      simp only [List.mem_cons, List.not_mem_nil, or_false] at hmem
      rcases hmem with rfl | rfl
      · exact mem_parts_two.mpr (.inl rfl)
      · exact mem_parts_two.mpr (.inr rfl)
    · obtain ⟨hen, -, hid⟩ := hpart
      rcases mem_parts_two.mp hop with rfl | rfl
      · refine List.mem_map_of_mem (List.mem_filter.mpr ⟨by simp, ?_⟩)
        rw [hen, hid]
        simp
      · refine List.mem_map_of_mem (List.mem_filter.mpr ⟨by simp, ?_⟩)
        rw [hen, hid]
        simp

/-- A store of which something is in the LSU, and which is not squashed, stays in flight. -/
theorem Orderly.survives (h : p.Orderly c) (hp : p.Passes inp p' c c') (hi : c.Handed info robId)
    (hkeep : inp.squashes robId = false)
    (hthere : (∃ j, p.issue.HoldsStore j robId) ∨
      ∃ n op, n < 3 ∧ p.PartAt (c.reports robId.id) robId n op) : c'.Handed info robId := by
  obtain ⟨hinfo, hu, hhanded, rfl⟩ := hi
  obtain ⟨_, hpaced⟩ := hp.paced
  obtain ⟨hmem, hcarried⟩ := hp.stays info hinfo hu hkeep fun rev hrev => by
    rw [Bool.eq_false_iff]
    intro hlast
    have hat : p.PartAt (c.reports info.robId.id) info.robId 3 rev.toOpInfo :=
      ⟨List.mem_map_of_mem hrev, (h.results info hinfo hu rev hrev).isPart⟩
    obtain ⟨hslot, hpart⟩ := (h.ordered info hinfo hu).done hpaced hat hlast
    rcases hthere with ⟨j, hj⟩ | ⟨n, op, hn, hat'⟩
    · exact hslot j hj
    · exact hpart n op hn hat'
  refine ⟨hmem, hu, ?_, rfl⟩
  rw [hcarried.handed, hhanded, Bool.true_or]

/-- What is offered to the queue has not been in the LSU before. -/
theorem Orderly.offered_untouched (h : p.Orderly c) (hp : p.Passes inp p' c c')
    (hop : op ∈ enabled (p.issue.offered inp)) (hu : op.opUnit = .sdu) :
    p.Untouched (c.reports op.robId.id) op.robId := by
  unfold LsuIssue.offered at hop
  split at hop
  · exact (h.held op hop hu).2
  · rename_i hbusy
    obtain ⟨info, hinfo, hsdu, hno, rfl⟩ := (hp.pack (by simpa using hbusy) op hop).2 hu
    rw [info.toIssue_robId, h.fresh info hinfo hsdu hno]
    exact h.sourced.untouched hno

/-- A store that is offered to the queue and is not squashed stays in flight. -/
theorem Orderly.offered_handed (h : p.Orderly c) (hp : p.Passes inp p' c c')
    (hop : op ∈ enabled (p.issue.offered inp)) (hu : op.opUnit = .sdu)
    (hkeep : inp.squashes op.robId = false) :
    ∃ info, c'.Handed info op.robId ∧ op = info.toIssue := by
  have huntouched := h.offered_untouched hp hop hu
  have hquiet : ∀ info ∈ c.flight, info.opUnit = .sdu → op.robId = info.robId →
      info ∈ c'.flight ∧ p.Carried inp c c' info.robId := fun info hinfo hsdu hid => by
    rw [hid] at hkeep huntouched
    refine hp.stays info hinfo hsdu hkeep fun rev hrev => ?_
    exact absurd ⟨List.mem_map_of_mem hrev, (h.results info hinfo hsdu rev hrev).isPart⟩
      (huntouched.part 3 rev.toOpInfo)
  have hoffered := hop
  unfold LsuIssue.offered at hop
  split at hop
  · obtain ⟨⟨info, hi, he⟩, -⟩ := h.held op hop hu
    obtain ⟨hmem, hcarried⟩ := hquiet info hi.flight hi.unit hi.robId.symm
    refine ⟨info, ⟨hmem, hi.unit, ?_, hi.robId⟩, he⟩
    rw [hi.robId] at hcarried
    rw [hcarried.handed, hi.handed, Bool.true_or]
  · rename_i hbusy
    have hbusy : p.issue.busy = false := by simpa using hbusy
    obtain ⟨info, hinfo, hsdu, -, rfl⟩ := (hp.pack hbusy op hop).2 hu
    obtain ⟨hmem, hcarried⟩ := hquiet info hinfo hsdu info.toIssue_robId
    refine ⟨info, ⟨hmem, hsdu, ?_, info.toIssue_robId.symm⟩, rfl⟩
    rw [info.toIssue_robId, hcarried.handed, hands, hbusy, Bool.or_eq_true, Bool.not_false,
      Bool.true_and, List.any_eq_true]
    exact .inr ⟨_, hop, by simp⟩

/-- **A cycle of a run in order** is one that keeps the order. -/
theorem Orderly.turn (h : p.Orderly c) (hp : p.Passes inp p' c c') : p.Turn inp p' where
  cycle := hp.cycle
  commit := hp.commit
  sau := hp.sau
  agrees := hp.agrees
  alike := h.alike
  paced := hp.paced
  queue := by
    unfold LsuIssue.offered
    split
    · exact h.queue
    · rename_i hbusy
      have hbusy : p.issue.busy = false := by simpa using hbusy
      refine ⟨h.queue.bound, h.queue.slot, h.queue.unique, fun op hop => (hp.pack hbusy op hop).1,
        fun op hop hu => ?_, (hp.once hbusy).imp fun hne _ _ => hne⟩
      obtain ⟨info, hinfo, hsdu, hno, rfl⟩ := (hp.pack hbusy op hop).2 hu
      rw [info.toIssue_robId]
      exact (h.sourced.untouched hno).slot

/-- What the queue issues of a store is one of its two parts. -/
theorem sent_splits {i j : Nat} (hj : LsuIssue.SendsPart p.issue (p.sees inp) i j)
    (hitem : (p.issue.entry j).item = info.toIssue) :
    info.Splits (p.issue.sent (p.sees inp) i).toOpInfo := by
  rw [LsuIssue.sent, hj.selected]
  dsimp only
  rw [hitem]
  rcases hj.port with rfl | rfl
  · exact .address _
  · exact .data _

theorem unitOf_eq_sau {u : OpUnit} (h : LsuReadreg.unitOf u = some .sau) : u = .sau := by
  cases u <;> cases h
  rfl

theorem unitOf_eq_sdu {u : OpUnit} (h : LsuReadreg.unitOf u = some .sdu) : u = .sdu := by
  cases u <;> cases h
  rfl

/-- A unit that takes parts of stores. -/
theorem isStorePart_of_unitOf {u : OpUnit} {unit : LsuUnit} (hunit : unit = .sau ∨ unit = .sdu)
    (h : LsuReadreg.unitOf u = some unit) : u.isStorePart = true := by
  rcases hunit with rfl | rfl
  · rw [unitOf_eq_sau h]
    rfl
  · rw [unitOf_eq_sdu h]
    rfl

/-- **A cycle leaves nothing without a store in flight.** -/
theorem Orderly.sourced_next (h : p.Orderly c) (hp : p.Passes inp p' c c') : p'.Sourced c' := by
  have ht := h.turn hp
  -- what register read does not skip stays in flight
  have hrev : ∀ a ∈ p.rev, ∀ robId, a.toOpInfo.IsPart robId → LsuReadreg.skips inp a = false →
      ∃ info, c'.Handed info robId ∧ info.Splits a.toOpInfo := fun a ha robId hpart hskip => by
    obtain ⟨info, hi, hsplits⟩ := h.sourced.rev a ha robId hpart
    rw [LsuReadreg.skips, Bool.or_eq_false_iff, hpart.2.2] at hskip
    exact ⟨info, h.survives hp hi hskip.1 (.inr ⟨0, a.toOpInfo, by decide,
      List.mem_map_of_mem ha, hpart⟩), hsplits⟩
  -- nor does a flush of the branch unit leave out what the units drop
  have hpack : ∀ unit pack, (unit = .sau ∨ unit = .sdu) → p.hdff unit = some pack →
      inp.bru.squashes pack.robId = false → ∃ info, c'.Handed info pack.robId ∧
        info.Splits pack.toOpInfo := fun unit pack hunit hpack hbru => by
    obtain ⟨hu, hen, info, hi, hsplits⟩ := h.sourced.handshake unit pack hunit hpack
    refine ⟨info, h.survives hp hi ?_ (.inr ⟨1, pack.toOpInfo, by decide,
      mem_parts_one.mpr ⟨unit, hunit, pack, hpack, rfl⟩, hen, isStorePart_of_unitOf hunit hu, rfl⟩),
      hsplits⟩
    rw [LsuIssueInput.squashes, hbru, FlushFeedback.squashesEqual, hp.sau]
    rfl
  refine ⟨fun j robId hj => ?_, fun a ha robId hpart => ?_, fun unit pack hunit hnew => ?_,
    fun rev hrevs hen => ?_⟩
  · rcases ht.slot hj with ⟨hold, hs⟩ | ⟨op, hop, hkeep, hu, rfl, hg⟩
    · obtain ⟨info, hi, hitem⟩ := h.sourced.slot j robId hold
      have hkeep : inp.squashes robId = false := by
        have := hs.keeps
        rw [hitem, info.toIssue_robId, hi.robId] at this
        exact this
      exact ⟨info, h.survives hp hi hkeep (.inl ⟨j, hold⟩), hs.item.trans hitem⟩
    · obtain ⟨info, hi, he⟩ := h.offered_handed hp hop hu hkeep
      exact ⟨info, hi, hg.item.trans he⟩
  · cases hstall : inp.lu.stall with
    | true =>
      obtain ⟨hold, hskip⟩ := (rev_stalled ht.cycle ht.commit hstall hpart.1).mp ha
      exact hrev a hold robId hpart hskip
    | false =>
      obtain ⟨-, i, hi, rfl⟩ := (rev_issued ht.cycle ht.commit hstall hpart.1).mp ha
      obtain ⟨j, hj⟩ := LsuIssue.sent_part (p.sees inp) ht.queue hi hpart.1 hpart.2.1
      have hold : p.issue.HoldsStore j robId := hpart.2.2 ▸ hj.holds
      obtain ⟨info, hinfo, hitem⟩ := h.sourced.slot j robId hold
      have hkeep : inp.squashes robId = false := hold.robId ▸ hj.awake.2.1
      exact ⟨info, h.survives hp hinfo hkeep (.inl ⟨j, hold⟩), sent_splits hj hitem⟩
  · obtain ⟨-, a, ha, hen, hskip, hu, he⟩ := handshake_from ht.cycle ht.commit hunit hnew
    have hpart : a.toOpInfo.IsPart pack.robId := by
      rw [he]
      exact ⟨hen, isStorePart_of_unitOf hunit hu, rfl⟩
    rw [he]
    rw [he] at hpart
    exact ⟨hu, hen, hrev a ha a.robId hpart hskip⟩
  · rcases hrevs with rfl | rfl
    · obtain ⟨pack, hold, hbru, hsau⟩ := sau_from ht.cycle hen
      obtain ⟨info, hi, hsplits⟩ := hpack .sau pack (.inl rfl) hold hbru
      obtain ⟨hu, hen', -⟩ := h.sourced.handshake .sau pack (.inl rfl) hold
      rw [hsau, (sauCompute_samePart pack).robId]
      exact ⟨info, hi, hsplits.address_result hi.unit (unitOf_eq_sau hu) hen'⟩
    · obtain ⟨pack, hold, hbru, hsdu⟩ := sdu_from ht.cycle hen
      obtain ⟨info, hi, hsplits⟩ := hpack .sdu pack (.inr rfl) hold hbru
      obtain ⟨hu, hen', -⟩ := h.sourced.handshake .sdu pack (.inr rfl) hold
      rw [hsdu, (sduCompute_samePart pack).robId]
      exact ⟨info, hi, hsplits.data_result hi.unit (unitOf_eq_sdu hu) hen'⟩

/-- **The order is kept** in a cycle in which the queue and register read agree. -/
theorem Orderly.next (h : p.Orderly c) (hp : p.Passes inp p' c c') : p'.Orderly c' := by
  have ht := h.turn hp
  have hsourced := h.sourced_next hp
  have hcycled := LsuIssue.cycle_cycled (p.sees inp) ht.queue (cycle_eq_some ht.cycle).2.1
    ht.commit
  refine ⟨hcycled.fine, ht.alike_next, hsourced, fun op hop hu => ?_, fun info hinfo hu rev hrev => ?_,
    fun info hinfo hu hno => ?_, fun info hinfo hu => ?_⟩
  · obtain ⟨hoffered, hkeep⟩ := hcycled.held op hop
    obtain ⟨info, hi, he⟩ := h.offered_handed hp hoffered hu hkeep
    refine ⟨⟨info, hi, he⟩, ?_⟩
    have huntouched := h.offered_untouched hp hoffered hu
    rcases hp.flight info hi.flight hi.unit with ⟨-, hcarried⟩ | ⟨hno, -⟩
    · rw [hi.robId] at hcarried
      exact huntouched.turn ht hcarried.reports_next fun _ _ _ _ => hcycled.fine.apart op hop hu
    · have := hi.handed
      rw [← hi.robId, hno] at this
      cases this
  · rcases hp.flight info hinfo hu with ⟨hold, hcarried⟩ | ⟨-, hnil⟩
    · rw [hcarried.reports] at hrev
      rcases List.mem_append.mp hrev with hrev | hrev
      · exact h.results info hold hu rev hrev
      · exact (h.resultsAt_part hp hold hrev).1
    · rw [hnil] at hrev
      cases hrev
  · rcases hp.flight info hinfo hu with ⟨hold, hcarried⟩ | ⟨-, hnil⟩
    · rw [hcarried.handed, Bool.or_eq_false_iff] at hno
      rw [hcarried.reports, h.fresh info hold hu hno.1, List.nil_append,
        List.eq_nil_iff_forall_not_mem]
      intro rev hrev
      obtain ⟨hres, hi⟩ := h.resultsAt_part hp hold hrev
      have := hi.handed
      rw [← hi.robId, hno.1] at this
      cases this
    · exact hnil
  · rcases hp.flight info hinfo hu with ⟨hold, hcarried⟩ | ⟨hno, hnil⟩
    · refine (h.ordered info hold hu).turn ht hcarried.reports_next hcarried.keep
        fun op hop hsdu hid => ?_
      rw [← hid]
      exact h.offered_untouched hp hop hsdu
    · rw [hnil]
      exact (hsourced.untouched hno).ordered

/-- Nothing is in the LSU. -/
structure Empty (p : LsuPipe) : Prop where
  busy : p.readreg.busy = false
  slot : ∀ j, p.issue.valid j = false
  held : p.issue.holdRevPack = []
  rev : ∀ a ∈ p.rev, a.enable = false
  handshake : ∀ unit, p.hdff unit = none
  port : p.sau.enable = false ∧ p.sdu.enable = false

/-- **An empty LSU is in order** with nothing in flight. -/
theorem Empty.orderly (h : p.Empty) (hc : c.flight = []) : p.Orderly c := by
  have hno {j : Nat} {P : Prop} (hv : p.issue.valid j = true) : P := by
    rw [h.slot j] at hv
    cases hv
  have hdis {a : IntegerIssueOp} {P : Prop} (ha : a ∈ p.rev) (hen : a.enable = true) : P := by
    rw [h.rev a ha] at hen
    cases hen
  refine ⟨⟨fun j hv => hno hv, fun j hv => hno hv, fun j k robId hj => hno hj.valid, ?_, ?_, ?_⟩,
    fun a ha b _ robId hpart => hdis ha hpart.1,
    ⟨fun j robId hj => hno hj.valid, fun a ha robId hpart => hdis ha hpart.1,
      fun unit pack _ hpack => ?_, fun rev hrev hen => ?_⟩, ?_, ?_, ?_, ?_⟩
  · simp [h.held]
  · simp [h.held]
  · simp [h.held]
  · rw [h.handshake unit] at hpack
    cases hpack
  · rcases hrev with rfl | rfl
    · rw [h.port.1] at hen
      cases hen
    · rw [h.port.2] at hen
      cases hen
  · simp [h.held]
  · simp [hc]
  · simp [hc]
  · simp [hc]

theorem empty_init : LsuPipe.Empty {} where
  busy := rfl
  slot _ := rfl
  held := rfl
  rev a ha := by
    simp only [LsuPipe.rev, LsuReadreg.revPack, List.mem_map] at ha
    obtain ⟨i, -, rfl⟩ := ha
    rfl
  handshake _ := rfl
  port := ⟨rfl, rfl⟩

/-- **A flush of commit empties the LSU.** -/
theorem cycle_flushed (h : p.cycle inp = some p') (hflush : inp.commitFlush = true) :
    p'.Empty := by
  obtain ⟨hread, hissue, hport, hsau, hsdu⟩ := cycle_eq_some h
  obtain ⟨new, -, hinput⟩ := Option.map_eq_some_iff.mp hissue
  rw [LsuIssue.runInput, if_pos (by exact hflush)] at hinput
  rw [LsuReadreg.run, if_pos hflush] at hread
  obtain ⟨hreadreg, hhdff⟩ := Prod.mk.inj (Option.some.inj hread)
  rw [runOutput_port, issues, hflush, Bool.not_true, Bool.false_and, Bool.false_and,
    if_neg (by decide)] at hport
  refine ⟨?_, fun j => ?_, ?_, fun a ha => ?_, fun unit => ?_, ?_, ?_⟩
  · rw [← hreadreg]
  · rw [← hinput]
  · rw [← hinput]
  · obtain ⟨i, hi, rfl⟩ := mem_rev.mp ha
    rw [← hreadreg, LsuReadreg.revPack, if_neg (by decide), hport, List.getD_eq_getElem?_getD,
      List.getElem?_replicate, if_pos hi]
    rfl
  · rw [← hhdff]
  · rw [hsau, sauPort, hflush]
  · rw [hsdu, sduPort, hflush]

end LsuPipe

end DreamCore
