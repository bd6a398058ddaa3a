import DreamCore.Backend.IssueStep

/-!
# What dispatch does in one cycle

Dispatch is a short pipe. Renamed instructions wait on the rename port or, when
they must wait as a whole, in `rev_pack`; behind the split each class has a hold
register and a port. Whatever a cycle does, it hands a class on in order: read
from the far end to the near end, the pipe is the same list before and after, but
for what the issue stage took off its port and what a flush squashed.
-/

namespace DreamCore

open Ring

/-- The instruction has to be the oldest before dispatch lets it go. -/
def DecodeRenamePack.waits (rev : DecodeRenamePack) : Bool :=
  rev.valid && !rev.hasException && (rev.opUnit == .csr || rev.op == .mret)

/-- A fence dispatch acts on. -/
def DecodeRenamePack.isFence (rev : DecodeRenamePack) : Bool :=
  rev.valid && !rev.hasException && rev.op == .fence

/-- The instructions of one class, as dispatch passes them on. -/
def ofClass (lsu : Bool) (ops : List OpInfo) : List OpInfo :=
  (ops.filter fun op => op.opUnit.isLsu == lsu).map OpInfo.toIssue

@[simp] theorem ofClass_nil (lsu : Bool) : ofClass lsu [] = [] := rfl

theorem ofClass_append (lsu : Bool) (l₁ l₂ : List OpInfo) :
    ofClass lsu (l₁ ++ l₂) = ofClass lsu l₁ ++ ofClass lsu l₂ := by
  simp [ofClass]

namespace OpInfo

variable (op : OpInfo)

@[simp] theorem toIssue_robId : op.toIssue.robId = op.robId := by
  unfold toIssue; split <;> rfl

@[simp] theorem toIssue_enable : op.toIssue.enable = op.enable := by
  unfold toIssue; split <;> rfl

@[simp] theorem toIssue_opUnit : op.toIssue.opUnit = op.opUnit := by
  unfold toIssue; split <;> rfl

end OpInfo

/-- A pack as rename sends it: no holes, an instruction that waits stands alone, and no memory
access comes after a fence. -/
structure PackOk (ops : List OpInfo) : Prop where
  enable : ∀ op ∈ ops, op.enable = true
  alone : ∀ op ∈ ops, op.waits = true → ops = [op] ∧ op.opUnit.isLsu = false
  fenced : ops.Pairwise fun op op' => op.isFence = true → op'.opUnit.isLsu = false

theorem packOk_nil : PackOk [] := ⟨by simp, by simp, .nil⟩

theorem PackOk.enabled {ops : List OpInfo} (h : PackOk ops) : enabled ops = ops := by
  rw [DreamCore.enabled, List.filter_eq_self]
  exact h.enable

/-! ## The split -/

/-- The last fence of a pack. -/
def lastFence (ops : List OpInfo) : Option OpInfo := (ops.filter fun op => op.isFence).getLast?

theorem lastFence_eq_some {ops : List OpInfo} {op : OpInfo} (h : lastFence ops = some op) :
    op.isFence = true ∧ ∃ l₁ l₂, ops = l₁ ++ op :: l₂ ∧ ∀ op' ∈ l₂, op'.isFence = false := by
  induction ops using List.reverseRecOn with
  | nil => cases h
  | append_singleton ops op' ih =>
    unfold lastFence at h ih
    rw [List.filter_append] at h
    cases hf : op'.isFence with
    | true =>
      rw [List.filter_cons_of_pos (by simpa using hf), List.filter_nil, List.getLast?_concat] at h
      cases h
      exact ⟨hf, ops, [], rfl, by simp⟩
    | false =>
      rw [List.filter_cons_of_neg (by simp [hf]), List.filter_nil, List.append_nil] at h
      obtain ⟨hop, l₁, l₂, rfl, hl⟩ := ih h
      refine ⟨hop, l₁, l₂ ++ [op'], by simp, fun x hx => ?_⟩
      rcases List.mem_append.mp hx with hx | hx
      · exact hl x hx
      · rw [List.mem_singleton.mp hx]
        exact hf

theorem lastFence_eq_none {ops : List OpInfo} (h : lastFence ops = none) :
    ∀ op ∈ ops, op.isFence = false := by
  unfold lastFence at h
  rw [List.getLast?_eq_none_iff, List.filter_eq_nil_iff] at h
  intro op hop
  simpa using h op hop

/-- **The split takes a pack apart by class**, and finds the last fence. -/
theorem dispatchSplit_append {i : Nat} {ops : List OpInfo} {acc split : DispatchSplit}
    (hen : ∀ op ∈ ops, op.enable = true) (hno : ∀ op ∈ ops, op.waits = false)
    (h : dispatchSplit i ops acc = some split) :
    split.integer = acc.integer ++ ofClass false ops ∧ split.lsu = acc.lsu ++ ofClass true ops
      ∧ split.instWaiting = acc.instWaiting
      ∧ split.fence = ((lastFence ops).map OpInfo.robId).or acc.fence := by
  induction ops generalizing i acc with
  | nil => cases h; simp [lastFence]
  | cons op ops ih =>
    have hop := hen op (List.mem_cons_self ..)
    have hw := hno op (List.mem_cons_self ..)
    -- whatever the instruction is, the loop goes on with it appended to its class
    have hgo : ∃ f, dispatchSplit (i + 1) ops { (if op.opUnit.isLsu then
          { acc with lsu := acc.lsu ++ [op.toLsu] }
        else { acc with integer := acc.integer ++ [op] }) with fence := f } = some split
        ∧ f = if op.isFence then some op.robId else acc.fence := by
      unfold dispatchSplit at h
      simp only [hop, Bool.not_true, Bool.false_eq_true, if_false] at h
      have hacc : (if op.opUnit.isLsu = true then { acc with lsu := acc.lsu ++ [op.toLsu] }
          else { acc with integer := acc.integer ++ [op] }).fence = acc.fence := by
        split <;> rfl
      have hsame : ∀ x : DispatchSplit, x.fence = acc.fence → { x with fence := acc.fence } = x := by
        rintro ⟨⟩ rfl
        rfl
      split at h
      · rename_i hv
        split at h
        · rename_i hc
          simp only [DecodeRenamePack.waits, hv, Bool.true_and, Bool.or_eq_false_iff, beq_eq_false_iff_ne,
            ne_eq] at hw
          rcases hc with hc | hc
          · exact absurd hc hw.1
          · exact absurd hc hw.2
        · split at h
          · rename_i hf
            have hfence : op.isFence = true := by simp [DecodeRenamePack.isFence, hv, hf]
            exact ⟨_, h, by rw [hfence]; rfl⟩
          · rename_i hf
            have hfence : op.isFence = false := by simp [DecodeRenamePack.isFence, hf]
            exact ⟨acc.fence, by rw [hsame _ hacc]; exact h, by rw [hfence]; rfl⟩
      · rename_i hv
        have hfence : op.isFence = false := by simp [DecodeRenamePack.isFence, hv]
        exact ⟨acc.fence, by rw [hsame _ hacc]; exact h, by rw [hfence]; rfl⟩
    obtain ⟨f, hgo, hf⟩ := hgo
    obtain ⟨h₁, h₂, h₃, h₄⟩ := ih (fun o ho => hen o (List.mem_cons_of_mem _ ho))
      (fun o ho => hno o (List.mem_cons_of_mem _ ho)) hgo
    have hlast : ((lastFence (op :: ops)).map OpInfo.robId).or acc.fence
        = ((lastFence ops).map OpInfo.robId).or
          (if op.isFence then some op.robId else acc.fence) := by
      unfold lastFence
      cases hf : op.isFence with
      | false => rw [List.filter_cons_of_neg (by simp [hf])]; rfl
      | true =>
        rw [List.filter_cons_of_pos (by simpa using hf), List.getLast?_cons]
        cases (ops.filter fun op => op.isFence).getLast? <;> rfl
    rw [h₁, h₂, h₃, h₄, hlast, ← hf]
    cases hl : op.opUnit.isLsu with
    | false => simp [ofClass, hl, OpInfo.toIssue]
    | true => simp [ofClass, hl, OpInfo.toIssue]

/-- **What the split of a whole pack finds.** -/
structure DispatchSplit.Splits (split : DispatchSplit) (ops : List OpInfo) : Prop where
  integer : split.integer = ofClass false ops
  lsu : split.lsu = ofClass true ops
  waiting : ∀ robId, split.instWaiting = some robId →
    ∃ op, ops = [op] ∧ op.waits = true ∧ op.robId = robId ∧ split.lsu = []
  rest : split.instWaiting = none → (∀ op ∈ ops, op.waits = false)
    ∧ split.fence = (lastFence ops).map OpInfo.robId

theorem dispatchSplit_splits {ops : List OpInfo} {split : DispatchSplit} (hp : PackOk ops)
    (h : dispatchSplit 0 ops {} = some split) : split.Splits ops := by
  by_cases hw : ∃ op ∈ ops, op.waits = true
  · obtain ⟨op, hop, hw⟩ := hw
    obtain ⟨rfl, hl⟩ := hp.alone op hop hw
    have hen := hp.enable op hop
    have hc : op.opUnit = .csr ∨ op.op = .mret := by
      simp only [DecodeRenamePack.waits, Bool.and_eq_true, Bool.or_eq_true, beq_iff_eq] at hw
      exact hw.2
    have hv : (op.valid && !op.hasException) = true := by
      rw [DecodeRenamePack.waits, Bool.and_eq_true] at hw
      exact hw.1
    unfold dispatchSplit at h
    simp only [hen, Bool.not_true, Bool.false_eq_true, if_false, hl, hv, if_true, hc] at h
    cases h
    refine ⟨by simp [ofClass, hl, OpInfo.toIssue], by simp [ofClass, hl], fun robId hr => ?_,
      fun hr => by cases hr⟩
    exact ⟨op, rfl, hw, Option.some.inj hr, rfl⟩
  · have hno : ∀ op ∈ ops, op.waits = false := fun op hop => by
      rw [Bool.eq_false_iff]
      exact fun hc => hw ⟨op, hop, hc⟩
    obtain ⟨h₁, h₂, h₃, h₄⟩ := dispatchSplit_append hp.enable hno h
    refine ⟨by simpa using h₁, by simpa using h₂, fun robId hr => ?_,
      fun _ => ⟨hno, by simpa using h₄⟩⟩
    rw [h₃] at hr
    cases hr

namespace Dispatch

variable {d d' : Dispatch} {inp : DispatchInput}

/-! ## The pipe -/

/-- The hold register of a class. -/
def held (d : Dispatch) : Bool → List OpInfo
  | false => if d.integerBusy then enabled d.holdIntegerIssuePack else []
  | true => if d.lsuBusy then enabled d.holdLsuIssuePack else []

/-- The port of a class. -/
def port (d : Dispatch) : Bool → List OpInfo
  | false => enabled d.integerPort
  | true => enabled d.lsuPort

/-- The pack that waits as a whole. -/
def front (d : Dispatch) : List OpInfo := if d.busy then enabled d.revPack else []


/-- `rev_pack` is a pack, and dispatch is never in two of its states at once. -/
structure Ok (d : Dispatch) : Prop where
  busy : d.busy = true → d.integerBusy = false ∧ d.lsuBusy = false
  waiting : d.isInstWaiting = true ∨ d.isStbufEmptyWaiting = true →
    d.busy = false ∧ d.integerBusy = false ∧ d.lsuBusy = false
  pack : d.busy = true → PackOk d.revPack

end Dispatch

/-- Whether the stage behind the port of a class is stalled. -/
def DispatchInput.stalled (inp : DispatchInput) : Bool → Bool
  | false => inp.integerStall
  | true => inp.lsuStall

/-- The part of a split that belongs to a class. -/
def DispatchSplit.part (split : DispatchSplit) : Bool → List OpInfo
  | false => split.integer
  | true => split.lsu

namespace Dispatch

variable {d d' : Dispatch} {inp : DispatchInput}

/-- **Sending `sent` on its way**: into the port where the stage has taken the last pack,
into the hold register where it has not. -/
structure Sends (d d' : Dispatch) (inp : DispatchInput) (sent : Bool → List OpInfo) : Prop where
  flow : ∀ c, d'.port c ++ d'.held c = (if inp.stalled c then d.port c else []) ++ sent c
  held : ∀ c, (d'.held c).Sublist (sent c)

theorem sends_clearPorts : d.Sends (d.clearPorts inp) inp d.held := by
  constructor
  · intro c
    cases c with
    | false => cases hs : inp.integerStall <;> simp [clearPorts, port, held, DispatchInput.stalled, hs]
    | true => cases hs : inp.lsuStall <;> simp [clearPorts, port, held, DispatchInput.stalled, hs]
  · intro c
    cases c <;> exact List.Sublist.refl _

theorem sends_sendHeld : d.Sends (d.sendHeld inp) inp d.held := by
  constructor
  · intro c
    cases c with
    | false =>
      cases hs : inp.integerStall <;> cases hl : inp.lsuStall <;> cases hb : d.integerBusy
        <;> cases hb' : d.lsuBusy
        <;> simp [sendHeld, port, held, DispatchInput.stalled, hs, hl, hb, hb']
    | true =>
      cases hs : inp.integerStall <;> cases hl : inp.lsuStall <;> cases hb : d.integerBusy
        <;> cases hb' : d.lsuBusy
        <;> simp [sendHeld, port, held, DispatchInput.stalled, hs, hl, hb, hb']
  · intro c
    cases c <;> cases hs : inp.integerStall <;> cases hl : inp.lsuStall
      <;> cases hb : d.integerBusy <;> cases hb' : d.lsuBusy
      <;> simp [sendHeld, held, hs, hl, hb, hb']

theorem sends_sendClasses {split : DispatchSplit} (hi : d.integerBusy = false)
    (hl : d.lsuBusy = false) :
    d.Sends (d.sendClasses inp split) inp fun c => enabled (split.part c) := by
  have hempty : ∀ {l : List OpInfo}, l.isEmpty = true → enabled l = [] := by
    intro l h
    rw [List.isEmpty_iff.mp h]
    rfl
  constructor
  · intro c
    cases c with
    | false =>
      cases hs : inp.integerStall <;> cases hs' : inp.lsuStall <;> cases he : split.integer.isEmpty
        <;> cases he' : split.lsu.isEmpty
        <;> simp [sendClasses, clearPorts, port, held, DispatchInput.stalled, DispatchSplit.part, hs,
          hs', he, he', hi, hl, hempty]
    | true =>
      cases hs : inp.integerStall <;> cases hs' : inp.lsuStall <;> cases he : split.integer.isEmpty
        <;> cases he' : split.lsu.isEmpty
        <;> simp [sendClasses, clearPorts, port, held, DispatchInput.stalled, DispatchSplit.part, hs,
          hs', he, he', hi, hl, hempty]
  · intro c
    cases c <;> cases hs : inp.integerStall <;> cases hs' : inp.lsuStall
      <;> cases he : split.integer.isEmpty <;> cases he' : split.lsu.isEmpty
      <;> simp [sendClasses, clearPorts, held, DispatchSplit.part, hs, hs', he, he', hi, hl]

end Dispatch

end DreamCore
