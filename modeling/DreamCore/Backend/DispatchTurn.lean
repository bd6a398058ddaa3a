import DreamCore.Backend.DispatchStep

/-!
# A turn of dispatch

Whatever dispatch does in a cycle that commit does not flush, it is one of a few
things: it waits, it hands on what it holds, it keeps a pack as a whole, or it
lets one pack go. `Turn` says where the instructions are afterwards, `Gate` what
has become of the two waiting flags.
-/

namespace DreamCore

open Ring

namespace Dispatch

variable {d d' : Dispatch} {inp : DispatchInput} {moved : List OpInfo}

/-- Dispatch waits for nothing. -/
def opens (d : Dispatch) (inp : DispatchInput) : Bool :=
  (!d.isInstWaiting || d.instWaitingOk inp.commit)
    && (!d.isStbufEmptyWaiting || inp.storeBufferEmpty)

/-- What the cycle reads off the rename port, which is emptied only where it does. -/
def reads (d : Dispatch) (inp : DispatchInput) : List OpInfo :=
  if d.stall inp then [] else inp.renamePort

/-- What the flush of the branch unit leaves of a pack. -/
def kept (inp : DispatchInput) (ops : List OpInfo) : List OpInfo :=
  ops.filter fun op => !inp.bru.squashes op.robId

/-- **Where the instructions are after a turn** that lets `moved` go. -/
structure Turn (d d' : Dispatch) (inp : DispatchInput) (moved : List OpInfo) : Prop where
  front : moved ++ d'.front = kept inp (d.front ++ d.reads inp)
  flow : ∀ c, d'.port c ++ d'.held c
    = (if inp.stalled c then kept inp (d.port c) else []) ++ (kept inp (d.held c) ++ ofClass c moved)
  held : ∀ c, (d'.held c).Sublist (kept inp (d.held c) ++ ofClass c moved)
  ok : d'.Ok
  pack : PackOk moved

/-- **What has become of the waiting flags** in a turn that lets `moved` go. -/
inductive Gate (d d' : Dispatch) (inp : DispatchInput) : List OpInfo → Prop where
  /-- Dispatch waits on, or its wait has just ended. -/
  | closed : d.opens inp = false → d'.isInstWaiting = (d.isInstWaiting
        && !(d.instWaitingOk inp.commit || inp.squashesWaiting d.instWaitingRobId)) →
      (d'.isInstWaiting = true → d'.instWaitingRobId = d.instWaitingRobId) →
      (d'.isStbufEmptyWaiting = true → d.isStbufEmptyWaiting = true
        ∧ d'.stbufEmptyWaitingRobId = d.stbufEmptyWaitingRobId
        ∧ (d'.isInstWaiting = true
          ∨ inp.squashesWaiting d.stbufEmptyWaitingRobId = false)) → Gate d d' inp []
  /-- It waits for nothing, and nothing it lets go makes it wait. -/
  | passing (moved : List OpInfo) : d.opens inp = true → d'.isInstWaiting = false →
      d'.isStbufEmptyWaiting = false → (∀ op ∈ moved, op.waits = false ∧ op.isFence = false) →
      Gate d d' inp moved
  /-- A CSR instruction or `mret` leaves, as the next one commit will handle. -/
  | inst (op : OpInfo) : d.opens inp = true → op.waits = true →
      inp.commit.nextHandleRobId = some op.robId.id → d'.isInstWaiting = true →
      d'.instWaitingRobId = op.robId → d'.isStbufEmptyWaiting = false → Gate d d' inp [op]
  /-- A pack with a fence leaves. -/
  | fence (moved : List OpInfo) (op : OpInfo) : d.opens inp = true → lastFence moved = some op →
      (∀ op ∈ moved, op.waits = false) → d'.isInstWaiting = true →
      d'.instWaitingRobId = op.robId → d'.isStbufEmptyWaiting = true →
      d'.stbufEmptyWaitingRobId = op.robId → Gate d d' inp moved

@[simp] theorem kept_nil : kept inp [] = [] := rfl

theorem kept_append (l₁ l₂ : List OpInfo) : kept inp (l₁ ++ l₂) = kept inp l₁ ++ kept inp l₂ :=
  List.filter_append ..

/-- Without a flush everything is kept. -/
theorem kept_of_flush (h : inp.bru.flush = false) (ops : List OpInfo) : kept inp ops = ops := by
  rw [kept, List.filter_eq_self]
  intro op _
  simp [FlushFeedback.squashes, h]

theorem kept_eq_nil {ops : List OpInfo} (h : ∀ op ∈ ops, inp.bru.squashes op.robId = true) :
    kept inp ops = [] := by
  rw [kept, List.filter_eq_nil_iff]
  intro op hop
  simp [h op hop]

/-! ## The flush -/

/-- What dispatch drops unseen under a flush of the branch unit is younger than the branch. -/
def Squashed (d : Dispatch) (inp : DispatchInput) : Prop :=
  inp.bru.flush = true → ∀ op ∈ d.front ++ inp.renamePort ++ d.port false ++ d.held false,
    inp.bru.squashes op.robId = true

/-- **The filtering under a flush.** -/
structure Flushed (d d' : Dispatch) (inp : DispatchInput) : Prop where
  port : ∀ c, d'.port c = kept inp (d.port c)
  held : ∀ c, d'.held c = kept inp (d.held c)
  integerBusy : d'.integerBusy = true → d.integerBusy = true
  lsuBusy : d'.lsuBusy = true → d.lsuBusy = true
  busy : d'.busy = d.busy
  revPack : d'.revPack = d.revPack
  isInstWaiting : d'.isInstWaiting = d.isInstWaiting
  instWaitingRobId : d'.instWaitingRobId = d.instWaitingRobId
  isStbufEmptyWaiting : d'.isStbufEmptyWaiting = d.isStbufEmptyWaiting
  stbufEmptyWaitingRobId : d'.stbufEmptyWaitingRobId = d.stbufEmptyWaitingRobId
  same : inp.bru.flush = false → d' = d

theorem applyFlush_flushed (hsau : inp.sau.flush = false) (hsq : d.Squashed inp) :
    d.Flushed (d.applyFlush inp.bru inp.sau) inp := by
  unfold applyFlush
  rw [hsau, Bool.or_false]
  cases hb : inp.bru.flush with
  | false =>
    simp only [Bool.false_eq_true, if_false]
    exact ⟨fun c => (kept_of_flush hb _).symm, fun c => (kept_of_flush hb _).symm, id, id, rfl, rfl,
      rfl, rfl, rfl, rfl, fun _ => rfl⟩
  | true =>
    have hall := hsq hb
    have hlsu : ∀ ops : List OpInfo,
        enabled (squashPack (fun id => inp.bru.squashes id || false) ops) = kept inp (enabled ops) := by
      intro ops
      rw [enabled_squashPack]
      simp [kept]
    have hint : ∀ ops : List OpInfo, enabled (squashPack (fun id => true) ops) = [] := by
      intro ops
      rw [enabled_squashPack]
      simp
    simp only [if_true, Bool.true_or]
    refine ⟨fun c => ?_, fun c => ?_, (fun h => by cases h), fun h => ?_, rfl, rfl, rfl, rfl, rfl,
      rfl, fun h => absurd (hb.symm.trans h) (by decide)⟩
    · cases c with
      | false =>
        rw [kept_eq_nil fun op hop => hall op (by simp [hop])]
        exact hint _
      | true => exact hlsu _
    · cases c with
      | false =>
        rw [kept_eq_nil fun op hop => hall op (by simp [hop])]
        rfl
      | true =>
        have hany : ∀ ops : List OpInfo, ops.any (fun op => op.enable) = false → enabled ops = [] := by
          intro ops h
          rw [enabled, List.filter_eq_nil_iff]
          intro op hop
          simpa using List.any_eq_false.mp h op hop
        simp only [held]
        cases hl : d.lsuBusy with
        | false => simp
        | true =>
          rw [if_pos rfl, ← hlsu, Bool.true_and]
          split
          · rfl
          · rename_i hno
            exact (hany _ (by simpa using hno)).symm
    · rw [Bool.and_eq_true] at h
      exact h.1

/-! ## The branches -/

/-- The ports and hold registers after the flush, in terms of those before it. -/
theorem Flushed.sends {d₁ d₂ : Dispatch} {sent : Bool → List OpInfo} (hf : d.Flushed d₁ inp)
    (hp : ∀ c, d₂.port c = d₁.port c) (h : d₂.Sends d' inp sent)
    (hsent : ∀ c, sent c = kept inp (d.held c) ++ ofClass c moved) :
    (∀ c, d'.port c ++ d'.held c
      = (if inp.stalled c then kept inp (d.port c) else [])
        ++ (kept inp (d.held c) ++ ofClass c moved))
      ∧ ∀ c, (d'.held c).Sublist (kept inp (d.held c) ++ ofClass c moved) := by
  constructor
  · intro c
    rw [h.flow, hp, hf.port, hsent]
  · intro c
    rw [← hsent]
    exact h.held c

/-- **What makes dispatch stall rename.** -/
theorem stall_eq (d : Dispatch) (inp : DispatchInput) :
    d.stall inp = (d.integerBusy || d.lsuBusy || d.busy || !d.opens inp) := by
  unfold stall opens
  cases d.isInstWaiting <;> cases d.instWaitingOk inp.commit <;> cases d.isStbufEmptyWaiting
    <;> cases inp.storeBufferEmpty <;> simp

/-- **Dispatch waits**: nothing moves but what the issue stages take. -/
theorem runWaiting_turn {d₁ : Dispatch} (hok : d.Ok) (hf : d.Flushed d₁ inp)
    (hop : d.opens inp = false)
    (h : d₁.runWaiting inp (d.instWaitingOk inp.commit) = some d') :
    d.Turn d' inp [] ∧ d.Gate d' inp [] := by
  have hwaits : d.isInstWaiting = true ∨ d.isStbufEmptyWaiting = true := by
    unfold opens at hop
    cases hi : d.isInstWaiting with
    | true => exact .inl rfl
    | false =>
      rw [hi] at hop
      simp only [Bool.not_false, Bool.true_or, Bool.true_and] at hop
      cases hs : d.isStbufEmptyWaiting with
      | true => exact .inr rfl
      | false =>
        rw [hs] at hop
        cases hop
  obtain ⟨hbusy, hint, hlsu⟩ := hok.waiting hwaits
  have hint₁ : d₁.integerBusy = false := by
    rw [Bool.eq_false_iff]
    exact fun hc => absurd (hf.integerBusy hc) (by simp [hint])
  have hlsu₁ : d₁.lsuBusy = false := by
    rw [Bool.eq_false_iff]
    exact fun hc => absurd (hf.lsuBusy hc) (by simp [hlsu])
  have hheld : ∀ c, d₁.held c = kept inp (d.held c) ++ ofClass c [] := fun c => by
    rw [hf.held, ofClass_nil, List.append_nil]
  obtain ⟨hflow, hsub⟩ := hf.sends (fun _ => rfl) d₁.sends_clearPorts hheld
  have hfront : ∀ d₂ : Dispatch, [] ++ d₂.front = kept inp (d.front ++ d.reads inp) → d₂.Ok →
      (∀ c, d₂.port c = (d₁.clearPorts inp).port c) → (∀ c, d₂.held c = (d₁.clearPorts inp).held c) →
      d.Turn d₂ inp [] := by
    intro d₂ hfr hok' hp hh
    refine ⟨hfr, fun c => ?_, fun c => ?_, hok', packOk_nil⟩
    · rw [hp, hh, hflow]
    · rw [hh]
      exact hsub c
  -- nothing is read, and nothing was in front
  have hempty : kept inp (d.front ++ d.reads inp) = [] := by
    rw [front, hbusy, reads, stall_eq, hop]
    simp
  have hok' : ∀ i r b, { d₁.clearPorts inp with
      isInstWaiting := i, instWaitingRobId := r, isStbufEmptyWaiting := b }.Ok := fun _ _ _ =>
    ⟨fun _ => ⟨hint₁, hlsu₁⟩, fun _ => ⟨hf.busy.trans hbusy, hint₁, hlsu₁⟩,
      fun hc => absurd ((hf.busy.trans hbusy).symm.trans hc) (by decide)⟩
  have hfr : ∀ i r b, [] ++ front { d₁.clearPorts inp with
      isInstWaiting := i, instWaitingRobId := r, isStbufEmptyWaiting := b }
      = kept inp (d.front ++ d.reads inp) := fun _ _ _ => by
    rw [hempty, front]
    simp only [clearPorts, hf.busy, hbusy, Bool.false_eq_true, if_false, List.append_nil]
  have hturn : ∀ i r b, d.Turn { d₁.clearPorts inp with
      isInstWaiting := i, instWaitingRobId := r, isStbufEmptyWaiting := b } inp [] := fun i r b =>
    hfront _ (hfr i r b) (hok' i r b) (fun c => by cases c <;> rfl) (fun c => by cases c <;> rfl)
  have hsq : (d₁.clearPorts inp).instWaitingRobId = d.instWaitingRobId
      ∧ (d₁.clearPorts inp).stbufEmptyWaitingRobId = d.stbufEmptyWaitingRobId :=
    ⟨hf.instWaitingRobId, hf.stbufEmptyWaitingRobId⟩
  unfold runWaiting at h
  dsimp only at h
  split at h
  · rename_i hi
    have hi' : d.isInstWaiting = true := hf.isInstWaiting.symm.trans hi
    split at h
    · rename_i hend
      rw [hsq.1] at hend
      cases h
      refine ⟨hturn _ _ _, .closed hop (by rw [hend, hi']; rfl) (fun hc => by cases hc) fun hs => ?_⟩
      simp only [Bool.and_eq_true, Bool.not_eq_true', Bool.or_eq_false_iff] at hs
      rw [hsq.2] at hs
      exact ⟨hf.isStbufEmptyWaiting.symm.trans hs.1, hf.stbufEmptyWaitingRobId, .inr hs.2.2⟩
    · rename_i hend
      rw [hsq.1, Bool.not_eq_true] at hend
      cases h
      refine ⟨hturn d₁.isInstWaiting d₁.instWaitingRobId d₁.isStbufEmptyWaiting,
        .closed hop (by rw [hend, hi']; exact hi) (fun _ => hsq.1) fun hs => ?_⟩
      exact ⟨hf.isStbufEmptyWaiting.symm.trans hs, hf.stbufEmptyWaitingRobId, .inl hi⟩
  · rename_i hi
    have hi' : d.isInstWaiting = false := by
      rw [Bool.not_eq_true] at hi
      exact hf.isInstWaiting.symm.trans hi
    rw [Bool.not_eq_true] at hi
    split at h
    · rename_i hs
      cases h
      refine ⟨hturn d₁.isInstWaiting d₁.instWaitingRobId _,
        .closed hop (by rw [hi']; exact hi) (fun _ => hsq.1) fun hs' => ?_⟩
      simp only [Bool.not_eq_true', Bool.or_eq_false_iff] at hs'
      rw [hsq.2] at hs'
      exact ⟨hf.isStbufEmptyWaiting.symm.trans hs, hf.stbufEmptyWaitingRobId, .inr hs'.2⟩
    · cases h

/-- Dispatch is about to send `pack` and holds nothing else. -/
structure Loaded (d d' : Dispatch) (inp : DispatchInput) (pack : List OpInfo) : Prop where
  port : ∀ c, d'.port c = kept inp (d.port c)
  held : ∀ c, kept inp (d.held c) = []
  front : pack = kept inp (d.front ++ d.reads inp)
  integerBusy : d'.integerBusy = false
  lsuBusy : d'.lsuBusy = false
  busy : d'.busy = false

/-- Neither waiting flag is set. -/
structure Idle (d : Dispatch) : Prop where
  isInstWaiting : d.isInstWaiting = false
  isStbufEmptyWaiting : d.isStbufEmptyWaiting = false

theorem enabled_ofClass {ops : List OpInfo} (h : ∀ op ∈ ops, op.enable = true) (c : Bool) :
    enabled (ofClass c ops) = ofClass c ops := by
  rw [enabled, List.filter_eq_self]
  intro op hop
  obtain ⟨op', hop', rfl⟩ := List.mem_map.mp hop
  rw [OpInfo.toIssue_enable]
  exact h op' (List.mem_of_mem_filter hop')

theorem clearPorts_port (d : Dispatch) (inp : DispatchInput) (c : Bool) :
    (d.clearPorts inp).port c = if inp.stalled c then d.port c else [] := by
  cases c with
  | false => cases hs : inp.integerStall <;> simp [clearPorts, port, DispatchInput.stalled, hs]
  | true => cases hs : inp.lsuStall <;> simp [clearPorts, port, DispatchInput.stalled, hs]

/-- A class of the split finds its stage busy. -/
def refuses (inp : DispatchInput) (split : DispatchSplit) : Bool :=
  (!split.integer.isEmpty && inp.integerStall) || (!split.lsu.isEmpty && inp.lsuStall)

/-- **What sending the classes leaves alone.** -/
theorem sendClasses_frame (d : Dispatch) (inp : DispatchInput) (split : DispatchSplit) :
    (d.sendClasses inp split).busy = d.busy
      ∧ (d.sendClasses inp split).isInstWaiting = d.isInstWaiting
      ∧ (d.sendClasses inp split).instWaitingRobId = d.instWaitingRobId
      ∧ (d.sendClasses inp split).isStbufEmptyWaiting = d.isStbufEmptyWaiting
      ∧ (d.sendClasses inp split).stbufEmptyWaitingRobId = d.stbufEmptyWaitingRobId
      ∧ (refuses inp split = false → (d.sendClasses inp split).integerBusy = d.integerBusy
        ∧ (d.sendClasses inp split).lsuBusy = d.lsuBusy) := by
  unfold sendClasses refuses
  cases split.integer.isEmpty <;> cases inp.integerStall <;> cases split.lsu.isEmpty
    <;> cases inp.lsuStall <;> simp [clearPorts]

section Send

variable {d₁ : Dispatch} {pack : List OpInfo} {split : DispatchSplit} {robId : Ptr}

/-- **The pack stays** in `rev_pack`, as a whole. -/
theorem Loaded.keep (hl : d.Loaded d₁ inp pack) (hrev : d₁.revPack = pack) (hi : d₁.Idle)
    (hp : PackOk pack) (hop : d.opens inp = true) :
    d.Turn { d₁.clearPorts inp with busy := true } inp []
      ∧ d.Gate { d₁.clearPorts inp with busy := true } inp [] := by
  have hfront : Dispatch.front { d₁.clearPorts inp with busy := true } = pack := by
    rw [Dispatch.front, if_pos rfl]
    simp only [clearPorts, hrev]
    exact hp.enabled
  have hheld : ∀ c, Dispatch.held { d₁.clearPorts inp with busy := true } c = [] := by
    intro c
    cases c <;> simp [Dispatch.held, clearPorts, hl.integerBusy, hl.lsuBusy]
  refine ⟨⟨by rw [hfront, List.nil_append, hl.front], fun c => ?_, fun c => ?_, ⟨fun _ =>
    ⟨hl.integerBusy, hl.lsuBusy⟩, fun hw => ?_, fun _ => ?_⟩, packOk_nil⟩,
    .passing [] hop hi.isInstWaiting hi.isStbufEmptyWaiting (by simp)⟩
  · rw [hl.held, hheld, ofClass_nil, List.append_nil, List.append_nil, List.append_nil, ← hl.port,
      ← clearPorts_port]
    cases c <;> rfl
  · rw [hheld]
    exact List.nil_sublist _
  · rcases hw with hw | hw
    · exact absurd (hi.isInstWaiting.symm.trans hw) (by decide)
    · exact absurd (hi.isStbufEmptyWaiting.symm.trans hw) (by decide)
  · change PackOk d₁.revPack
    rw [hrev]
    exact hp

/-- **A CSR instruction or `mret`** leaves alone, or stays. -/
theorem Loaded.sendInst (hl : d.Loaded d₁ inp pack) (hrev : d₁.revPack = pack) (hi : d₁.Idle)
    (hp : PackOk pack) (hop : d.opens inp = true) (hs : split.Splits pack) (hw : split.instWaiting = some robId) :
    ∃ moved, d.Turn (d₁.sendInst inp split robId) inp moved
      ∧ d.Gate (d₁.sendInst inp split robId) inp moved := by
  obtain ⟨op, rfl, hwaits, rfl, hlsu⟩ := hs.waiting robId hw
  unfold Dispatch.sendInst
  split
  · rename_i hgo
    rw [Bool.and_eq_true, Bool.not_eq_true', beq_iff_eq] at hgo
    refine ⟨[op], ⟨?_, fun c => ?_, fun c => ?_, ⟨fun hb => ?_, fun _ => ⟨hl.busy, hl.integerBusy,
      hl.lsuBusy⟩, fun hb => ?_⟩, hp⟩, .inst op hop hwaits hgo.2 rfl rfl hi.isStbufEmptyWaiting⟩
    · rw [← hl.front, Dispatch.front]
      simp [clearPorts, hl.busy]
    · rw [hl.held]
      cases c with
      | false =>
        have hi : enabled split.integer = ofClass false [op] := by
          rw [hs.integer, enabled_ofClass hp.enable]
        simp [Dispatch.port, Dispatch.held, DispatchInput.stalled, clearPorts, hl.integerBusy, hgo.1, hi]
      | true =>
        have hno : ofClass true [op] = [] := by rw [← hs.lsu, hlsu]
        have hport := clearPorts_port d₁ inp true
        rw [hl.port] at hport
        rw [hno, List.append_nil, List.append_nil, ← hport]
        simp [Dispatch.port, Dispatch.held, clearPorts, hl.lsuBusy]
    · cases c with
      | false => simp [Dispatch.held, clearPorts, hl.integerBusy]
      | true => simp [Dispatch.held, clearPorts, hl.lsuBusy]
    · exact absurd (hl.busy.symm.trans hb) (by decide)
    · exact absurd (hl.busy.symm.trans hb) (by decide)
  · exact ⟨[], hl.keep hrev hi hp hop⟩

/-- **Both classes of a pack leave**, into the ports or into the hold registers. -/
theorem Loaded.sendClasses (hl : d.Loaded d₁ inp pack) (hp : PackOk pack) (hs : split.Splits pack)
    (hok : (d₁.sendClasses inp split).Ok) : d.Turn (d₁.sendClasses inp split) inp pack := by
  have hpart : ∀ c, enabled (split.part c) = ofClass c pack := by
    intro c
    cases c with
    | false => rw [DispatchSplit.part, hs.integer, enabled_ofClass hp.enable]
    | true => rw [DispatchSplit.part, hs.lsu, enabled_ofClass hp.enable]
  have hsends : d₁.Sends (d₁.sendClasses inp split) inp fun c => enabled (split.part c) :=
    sends_sendClasses hl.integerBusy hl.lsuBusy
  have hbusy : (d₁.sendClasses inp split).busy = false :=
    (d₁.sendClasses_frame inp split).1.trans hl.busy
  refine ⟨?_, fun c => ?_, fun c => ?_, hok, hp⟩
  · rw [← hl.front, Dispatch.front, hbusy]
    simp
  · rw [hsends.flow, hl.port, hl.held, hpart, List.nil_append]
  · rw [hl.held, List.nil_append, ← hpart]
    exact hsends.held c

/-- **A pack with no instruction that waits** leaves; one with a fence only as a whole. -/
theorem Loaded.sendPack (hl : d.Loaded d₁ inp pack) (hrev : d₁.revPack = pack) (hi : d₁.Idle)
    (hp : PackOk pack) (hop : d.opens inp = true) (hs : split.Splits pack) (hw : split.instWaiting = none) :
    ∃ moved, d.Turn (d₁.sendPack inp split) inp moved
      ∧ d.Gate (d₁.sendPack inp split) inp moved := by
  obtain ⟨hno, hfence⟩ := hs.rest hw
  unfold Dispatch.sendPack
  cases hf : split.fence with
  | none =>
    have hlast : lastFence pack = none := by
      rw [hf] at hfence
      exact Option.map_eq_none_iff.mp hfence.symm
    obtain ⟨hb, hin, -, hst, -⟩ := d₁.sendClasses_frame inp split
    refine ⟨pack, hl.sendClasses hp hs ⟨fun hc => ?_, fun hc => ?_, fun hc => ?_⟩,
      .passing pack hop (hin.trans hi.isInstWaiting) (hst.trans hi.isStbufEmptyWaiting)
        fun op hmem => ⟨hno op hmem, lastFence_eq_none hlast op hmem⟩⟩
    · exact absurd (hb.symm.trans hc) (by simp [hl.busy])
    · rcases hc with hc | hc
      · exact absurd (hin.symm.trans hc) (by simp [hi.isInstWaiting])
      · exact absurd (hst.symm.trans hc) (by simp [hi.isStbufEmptyWaiting])
    · exact absurd (hb.symm.trans hc) (by simp [hl.busy])
  | some robId =>
    obtain ⟨op, hlast, rfl⟩ : ∃ op, lastFence pack = some op ∧ op.robId = robId := by
      rw [hf] at hfence
      exact Option.map_eq_some_iff.mp hfence.symm
    dsimp only
    split
    · exact ⟨[], hl.keep hrev hi hp hop⟩
    · rename_i hroom
      have hroom' : refuses inp split = false := by
        rw [Bool.not_eq_true] at hroom
        exact hroom
      have hl' : Loaded d { d₁ with
          isStbufEmptyWaiting := true
          stbufEmptyWaitingRobId := op.robId
          isInstWaiting := true
          instWaitingRobId := op.robId } inp pack :=
        ⟨fun c => by rw [← hl.port]; cases c <;> rfl, hl.held, hl.front, hl.integerBusy, hl.lsuBusy,
          hl.busy⟩
      obtain ⟨hb, hin, hid, hst, hsid, hacc⟩ := sendClasses_frame { d₁ with
          isStbufEmptyWaiting := true
          stbufEmptyWaitingRobId := op.robId
          isInstWaiting := true
          instWaitingRobId := op.robId } inp split
      obtain ⟨hint, hlsu⟩ := hacc hroom'
      refine ⟨pack, hl'.sendClasses hp hs ⟨fun hc => ?_, fun _ => ⟨hb.trans hl.busy,
        hint.trans hl.integerBusy, hlsu.trans hl.lsuBusy⟩, fun hc => ?_⟩,
        .fence pack op hop hlast hno hin hid hst hsid⟩
      · exact absurd (hb.symm.trans hc) (by simp [hl.busy])
      · exact absurd (hb.symm.trans hc) (by simp [hl.busy])

end Send

/-- Dispatch with its next pack in `rev_pack`, and no flag set. -/
def load (d : Dispatch) (inp : DispatchInput) : Dispatch :=
  { d with
    isInstWaiting := false
    isStbufEmptyWaiting := false
    busy := false
    revPack := if d.busy then d.revPack else inp.renamePort }

/-- The split of the next pack, which a flush leaves empty. -/
def splitNext (d : Dispatch) (inp : DispatchInput) : Option DispatchSplit :=
  if inp.bru.flush || inp.sau.flush then some {} else dispatchSplit 0 (d.load inp).revPack {}

theorem runOpen_eq_some (h : d.runOpen inp = some d') :
    ((d.integerBusy || d.lsuBusy) = true
      ∧ d' = { d with isInstWaiting := false, isStbufEmptyWaiting := false }.sendHeld inp) ∨
    ((d.integerBusy || d.lsuBusy) = false ∧ ∃ split, d.splitNext inp = some split
      ∧ ((∃ robId, split.instWaiting = some robId ∧ d' = (d.load inp).sendInst inp split robId)
        ∨ (split.instWaiting = none ∧ d' = (d.load inp).sendPack inp split))) := by
  have hload : (if d.busy = true
      then { d with isInstWaiting := false, isStbufEmptyWaiting := false, busy := false }
      else { d with
        isInstWaiting := false
        isStbufEmptyWaiting := false
        revPack := inp.renamePort }) = d.load inp := by
    unfold load
    cases d.busy <;> rfl
  have hsend : ∀ split : DispatchSplit,
      (split.instWaiting.elim (some ((d.load inp).sendPack inp split)) fun robId =>
        some ((d.load inp).sendInst inp split robId)) = some d' →
      (∃ robId, split.instWaiting = some robId ∧ d' = (d.load inp).sendInst inp split robId)
        ∨ (split.instWaiting = none ∧ d' = (d.load inp).sendPack inp split) := by
    intro split hs
    cases hw : split.instWaiting with
    | some robId =>
        rw [hw] at hs
        exact .inl ⟨robId, rfl, (Option.some.inj hs).symm⟩
    | none =>
        rw [hw] at hs
        exact .inr ⟨rfl, (Option.some.inj hs).symm⟩
  unfold runOpen at h
  dsimp only at h
  rw [hload] at h
  split at h
  · rename_i hfree
    rw [Bool.not_eq_true'] at hfree
    refine .inr ⟨hfree, ?_⟩
    unfold splitNext
    split at h
    · rename_i hfl
      rw [if_pos hfl]
      exact ⟨{}, rfl, hsend {} h⟩
    · rename_i hfl
      rw [if_neg hfl]
      obtain ⟨split, hs, h⟩ := Option.bind_eq_some_iff.mp h
      refine ⟨split, hs, hsend split ?_⟩
      revert h
      cases split.instWaiting <;> exact id
  · rename_i hfree
    rw [Bool.not_eq_true', Bool.not_eq_false] at hfree
    exact .inl ⟨hfree, (Option.some.inj h).symm⟩

theorem sendHeld_frame (d : Dispatch) (inp : DispatchInput) :
    (d.sendHeld inp).busy = d.busy ∧ (d.sendHeld inp).isInstWaiting = d.isInstWaiting
      ∧ (d.sendHeld inp).isStbufEmptyWaiting = d.isStbufEmptyWaiting := by
  unfold sendHeld
  cases inp.integerStall <;> cases inp.lsuStall <;> cases hi : d.integerBusy
    <;> cases hl : d.lsuBusy <;> simp [hl]

/-- **Dispatch waits for nothing**: it hands on what it holds, or takes its next pack. -/
theorem runOpen_turn {d₁ : Dispatch} (hok : d.Ok) (hf : d.Flushed d₁ inp)
    (hsau : inp.sau.flush = false) (hpack : PackOk inp.renamePort) (hsq : d.Squashed inp)
    (hop : d.opens inp = true) (h : d₁.runOpen inp = some d') :
    ∃ moved, d.Turn d' inp moved ∧ d.Gate d' inp moved := by
  rcases runOpen_eq_some h with ⟨hheld, rfl⟩ | ⟨hfree, split, hsplit, hsend⟩
  · -- a hold register is full, so no pack is kept and nothing is read
    have hheld' : (d.integerBusy || d.lsuBusy) = true := by
      rw [Bool.or_eq_true] at hheld ⊢
      exact hheld.imp hf.integerBusy hf.lsuBusy
    have hbusy : d.busy = false := by
      rw [Bool.eq_false_iff]
      intro hb
      obtain ⟨hi, hl⟩ := hok.busy hb
      rw [hi, hl] at hheld'
      cases hheld'
    have hempty : d.front ++ d.reads inp = [] := by
      rw [front, hbusy, reads, stall_eq, hheld']
      rfl
    obtain ⟨hb, hin, hst⟩ := sendHeld_frame
      { d₁ with isInstWaiting := false, isStbufEmptyWaiting := false } inp
    have hsent : ∀ c, held { d₁ with isInstWaiting := false, isStbufEmptyWaiting := false } c
        = kept inp (d.held c) ++ ofClass c [] := fun c => by
      rw [ofClass_nil, List.append_nil, ← hf.held]
      cases c <;> rfl
    obtain ⟨hflow, hsub⟩ := hf.sends (fun c => by cases c <;> rfl) sends_sendHeld hsent
    have hb' := hb.trans (hf.busy.trans hbusy)
    refine ⟨[], ⟨?_, hflow, hsub, ⟨fun hc => ?_, fun hc => ?_, fun hc => ?_⟩, packOk_nil⟩,
      .passing [] hop hin hst (by simp)⟩
    · rw [hempty, front, hb']
      rfl
    · exact absurd (hb'.symm.trans hc) (by decide)
    · rcases hc with hc | hc
      · exact absurd (hin.symm.trans hc) Bool.false_ne_true
      · exact absurd (hst.symm.trans hc) Bool.false_ne_true
    · exact absurd (hb'.symm.trans hc) (by decide)
  · rw [Bool.or_eq_false_iff] at hfree
    obtain ⟨hint, hlsu⟩ := hfree
    have hnone : ∀ c, kept inp (d.held c) = [] := by
      intro c
      rw [← hf.held]
      cases c with
      | false => rw [held, hint]; rfl
      | true => rw [held, hlsu]; rfl
    have hport : ∀ c, (d₁.load inp).port c = kept inp (d.port c) := by
      intro c
      rw [← hf.port]
      cases c <;> rfl
    cases hfl : inp.bru.flush with
    | true =>
      -- the next pack is squashed as a whole
      have hall := hsq hfl
      have hnil : [] = kept inp (d.front ++ d.reads inp) := by
        refine (kept_eq_nil fun op hmem => hall op ?_).symm
        rcases List.mem_append.mp hmem with hmem | hmem
        · simp [hmem]
        · unfold reads at hmem
          split at hmem
          · cases hmem
          · simp [hmem]
      have hload : d.Loaded (d₁.load inp) inp [] := ⟨hport, hnone, hnil, hint, hlsu, rfl⟩
      have he : split = {} := by
        rw [splitNext, hfl] at hsplit
        exact (Option.some.inj hsplit).symm
      subst he
      have hs : ({} : DispatchSplit).Splits [] :=
        ⟨rfl, rfl, fun _ h => (by cases h), fun _ => ⟨by simp, rfl⟩⟩
      rcases hsend with ⟨robId, hw, -⟩ | ⟨-, rfl⟩
      · cases hw
      · obtain ⟨hb, hin, -, hst, -⟩ := (d₁.load inp).sendClasses_frame inp {}
        refine ⟨[], hload.sendClasses packOk_nil hs ⟨fun hc => ?_, fun hc => ?_, fun hc => ?_⟩,
          .passing [] hop hin hst (by simp)⟩
        · exact absurd (hb.symm.trans hc) (by simp [load])
        · rcases hc with hc | hc
          · exact absurd (hin.symm.trans hc) (by simp [load])
          · exact absurd (hst.symm.trans hc) (by simp [load])
        · exact absurd (hb.symm.trans hc) (by simp [load])
    | false =>
      have hd := hf.same hfl
      subst hd
      have hrev : PackOk (d₁.load inp).revPack
          ∧ (d₁.load inp).revPack = d₁.front ++ d₁.reads inp := by
        unfold load front reads
        rw [stall_eq, hint, hlsu, hop]
        cases hb : d₁.busy with
        | true =>
          have hp := hok.pack hb
          exact ⟨hp, by simpa using hp.enabled.symm⟩
        | false => exact ⟨hpack, by simp⟩
      have hload : d₁.Loaded (d₁.load inp) inp (d₁.load inp).revPack :=
        ⟨hport, hnone, by rw [kept_of_flush hfl, hrev.2], hint, hlsu, rfl⟩
      rw [splitNext, hfl, hsau] at hsplit
      have hs := dispatchSplit_splits hrev.1 hsplit
      rcases hsend with ⟨robId, hw, rfl⟩ | ⟨hw, rfl⟩
      · exact hload.sendInst rfl ⟨rfl, rfl⟩ hrev.1 hop hs hw
      · exact hload.sendPack rfl ⟨rfl, rfl⟩ hrev.1 hop hs hw

/-- **One cycle of dispatch** that no flush of commit hits. -/
theorem run_turn (hok : d.Ok) (hc : inp.commit.flush = false) (hsau : inp.sau.flush = false)
    (hpack : PackOk inp.renamePort) (hsq : d.Squashed inp) (h : d.run inp = some d') :
    ∃ moved, d.Turn d' inp moved ∧ d.Gate d' inp moved := by
  have hf := applyFlush_flushed hsau hsq
  unfold run at h
  rw [hc, if_neg Bool.false_ne_true] at h
  dsimp only at h
  rw [hf.isInstWaiting, hf.isStbufEmptyWaiting] at h
  cases hop : d.opens inp with
  | true =>
    rw [if_pos (by rw [← hop]; rfl)] at h
    exact runOpen_turn hok hf hsau hpack hsq hop h
  | false =>
    rw [if_neg (by rw [Bool.not_eq_true, ← hop]; rfl)] at h
    exact ⟨[], runWaiting_turn hok hf hop h⟩

end Dispatch

end DreamCore
