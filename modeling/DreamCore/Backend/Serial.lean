import DreamCore.Backend.PipeStep
import DreamCore.Pipeline.Execute

/-!
# CSR instructions and `mret` run alone

Dispatch lets a CSR instruction or `mret` go when it is the next that commit
handles, and nothing after it before commit has reported it. A report can be
premature, but only for a load or a store, so that for these instructions the
wait lasts until they retire. What dispatch has sent out holds one at most, at its
young end.
-/

namespace DreamCore

open Ring

/-! ## The places of a run -/

namespace Pipe

variable {P : Pipe → PipeInput → CycleResult → Prop} {p : Pipe}

/-- **One cycle of the whole pipe**, as the cuts see it. -/
theorem Places.step {inp : PipeInput} {r : CycleResult} {d : Dispatch} {g₀ g : Ghost}
    {sent : List OpInfo} {entered : Bool → List OpInfo} (hp : p.Places sent entered)
    (hw : p.world.Holds g₀) (hw' : (p.act inp r d).world.Holds g) (hc : p.Cycle inp r d) :
    (r.commit.feedback.flush = true ∧ (p.act inp r d).Places [] fun _ => []) ∨
      ∃ sent' entered' moved k, p.Moves r d sent sent' moved k
        ∧ p.Feeds inp r sent entered entered' k ∧ (p.act inp r d).Places sent' entered' := by
  cases hfl : r.commit.feedback.flush with
  | true => exact .inl ⟨rfl, Places.dropped hc hfl⟩
  | false =>
    obtain ⟨moved, k, hm⟩ := hp.moves hw hc hfl
    obtain ⟨entered', hfeeds, hp'⟩ := hp.stepped hw hc hw' hm
    exact .inr ⟨_, entered', moved, k, hm, hfeeds, hp'⟩

/-! ## One that waits is the last that was sent -/

/-- **Of what dispatch has sent out, only the last can be a CSR instruction or `mret`**, and
dispatch waits for it. -/
def Serial (p : Pipe) (sent : List OpInfo) : Prop :=
  ∀ l op l', sent = l ++ op :: l' → op.waits = true → l' = [] ∧ op.opUnit.isLsu = false
    ∧ p.dispatch.isInstWaiting = true ∧ p.dispatch.instWaitingRobId = op.robId

variable {inp : PipeInput} {r : CycleResult} {d : Dispatch} {g₀ g : Ghost}
  {sent : List OpInfo} {entered : Bool → List OpInfo}

/-- Without a flush commit has taken no exception. -/
theorem retired_eq_retireQueue (hw : p.world.Holds g₀) (hc : p.Cycle inp r d)
    (hflush : r.commit.feedback.flush = false) : r.commit.retired = r.commit.retireQueue := by
  have hstages := Core.cycle_eq_some hc.core
  obtain ⟨hack, hrsb⟩ := early_waits p.world.core inp.cycle
  have hports : ∀ rev ∈ inp.cycle.commit.executeCommitPort, rev.enable = true →
      ∃ f ∈ g₀.flight, ResultOf f.info rev := by
    rw [hw.flight]
    exact hc.legal.cycle.results
  have hno : r.commit.feedback.hasException = false := by
    cases commitRun_effect hw.inv (early_sameWindow p.world.core inp.cycle) hack hrsb hports
      hstages.commit with
    | retired k hk _ => exact hk.hasException
    | dropped k j hk =>
      have := hk.flush
      rw [hflush] at this
      cases this
    | interrupted _ _ hfl _ =>
      rw [hflush] at hfl
      cases hfl
  rw [CommitState.retired, hno]
  rfl

/-- **What commit reports in a cycle without a flush**: what it has retired, and perhaps one memory
access more. -/
theorem cycle_reported (hw : p.world.Holds g₀) (hc : p.Cycle inp r d)
    (hflush : r.commit.feedback.flush = false) {k : Nat} (hk : r.commit.retired.length = k) :
    r.commit.feedback.Reports p.world.flight
        (k + (p.world.core.misreports inp.cycle.commit.writeAck).toNat)
      ∧ (p.world.core.misreports inp.cycle.commit.writeAck = true →
        p.world.core.waitsOnMemory p.world.flight k) := by
  obtain ⟨q, hlog, hq, hrep, hmem⟩ := cycle_report hw hc.core
  have hqk : q = k := by
    have hlen := congrArg List.length hlog
    rw [List.length_map, List.length_map, List.length_take, Nat.min_eq_left hq] at hlen
    rw [← hlen, ← hk, retired_eq_retireQueue hw hc hflush]
  subst hqk
  exact ⟨hrep, hmem⟩

/-- The access that waits is a load or a store. -/
theorem waitsOnMemory_isLsu (hw : p.world.Holds g₀) {k : Nat} {f : Flight}
    (hget : p.world.flight[k]? = some f) (h : p.world.core.waitsOnMemory p.world.flight k) :
    f.info.opUnit.isLsu = true := by
  obtain ⟨id, hslot, hkind⟩ := h
  rw [slotAt, hget, Option.map_some] at hslot
  obtain ⟨σ, ht⟩ := hw.tracks (List.mem_of_getElem? hget)
  rw [← Option.some.inj hslot, ht.loadQueue, ht.storeBuffer, Bool.or_eq_true] at hkind
  have hunit : f.info.opUnit = .lu ∨ f.info.opUnit = .sdu := by
    rcases hkind with h | h
    · simp only [DecodeRenamePack.takesLoadQueue, Bool.and_eq_true, beq_iff_eq] at h
      exact .inl h.2
    · simp only [DecodeRenamePack.takesStoreBuffer, Bool.and_eq_true, beq_iff_eq] at h
      exact .inr h.2
  rcases hunit with hu | hu
  · rw [hu]
    rfl
  · rw [hu]
    rfl

/-- No two places of the window have one slot. -/
theorem slotAt_inj (hw : p.world.Holds g₀) {i j : Nat} {f : Flight}
    (hi : slotAt p.world.flight i = some f.info.robId.id) (hj : p.world.flight[j]? = some f) :
    i = j := by
  obtain ⟨f', hf', hslot⟩ := Option.map_eq_some_iff.mp hi
  obtain ⟨hi', -⟩ := List.getElem?_eq_some_iff.mp hf'
  refine (List.getElem?_inj (by rw [List.length_map]; exact hi') hw.slots_nodup).mp ?_
  rw [List.getElem?_map, List.getElem?_map, hf', hj, Option.map_some, Option.map_some, hslot]

/-- **The report on an instruction that is neither load nor store is true**: while it is in flight
commit does not report it. -/
theorem not_instWaitingOk (hw : p.world.Holds g₀) (hc : p.Cycle inp r d)
    (hflush : r.commit.feedback.flush = false) {k : Nat} (hk : r.commit.retired.length = k)
    {op : OpInfo} (hop : op ∈ p.infos.drop k) (hlsu : op.opUnit.isLsu = false)
    (hid : p.dispatch.instWaitingRobId = op.robId) :
    p.dispatch.instWaitingOk r.commit.feedback = false := by
  obtain ⟨hrep, hmem⟩ := cycle_reported hw hc hflush hk
  rw [infos, ← List.map_drop] at hop
  obtain ⟨f, hf, rfl⟩ := List.mem_map.mp hop
  obtain ⟨j, hget⟩ := List.mem_iff_getElem?.mp hf
  rw [List.getElem?_drop] at hget
  rw [Bool.eq_false_iff]
  intro hok
  obtain ⟨i, -, hi⟩ := List.any_eq_true.mp hok
  rw [beq_iff_eq, hrep.committed, hid] at hi
  split at hi
  swap
  · cases hi
  rename_i hlt
  -- the report is about a slot, and no other instruction in flight has it
  have hij : i = k + j := slotAt_inj hw hi hget
  cases hm : p.world.core.misreports inp.cycle.commit.writeAck with
  | false =>
    rw [hm] at hlt
    simp only [Bool.toNat_false] at hlt
    omega
  | true =>
    rw [hm] at hlt
    simp only [Bool.toNat_true] at hlt
    obtain rfl : j = 0 := by omega
    rw [waitsOnMemory_isLsu hw hget (hmem hm)] at hlsu
    cases hlsu

/-- **What retires is reported.** -/
theorem instWaitingOk_of_retires (hp : p.Places sent entered) (hw : p.world.Holds g₀)
    (hc : p.Cycle inp r d) {sent' moved : List OpInfo} {k : Nat}
    (hm : p.Moves r d sent sent' moved k) {op : OpInfo}
    (hop : op ∈ sent.take k) (hid : op.robId = p.dispatch.instWaitingRobId) :
    p.dispatch.instWaitingOk r.commit.feedback = true := by
  obtain ⟨hrep, -⟩ := cycle_reported hw hc hm.commitFlush hm.retired
  obtain ⟨j, hj, hget⟩ := List.mem_take_iff_getElem.mp hop
  have hinfo : p.infos[j]? = some op := by
    rw [hp.flight, List.getElem?_append_left (by omega), List.getElem?_eq_getElem (by omega), hget]
  rw [infos, List.getElem?_map] at hinfo
  obtain ⟨f, hf, rfl⟩ := Option.map_eq_some_iff.mp hinfo
  have hcom : r.commit.feedback.committedRobId j = some f.info.robId.id := by
    rw [hrep.committed, if_pos (by omega), slotAt, hf]
    rfl
  rw [Dispatch.instWaitingOk, List.any_eq_true]
  refine ⟨j, List.mem_range.mpr ?_, by rw [hcom, ← hid, beq_self_eq_true]⟩
  by_contra hlt
  rw [commitRun_beyond (Core.cycle_eq_some hc.core).commit (Nat.le_of_not_lt hlt)] at hcom
  cases hcom

/-- Only the branch unit squashes. -/
theorem squashesWaiting_eq (hw : p.world.Holds g₀) (hc : p.Cycle inp r d) (id : Ptr) :
    (p.dispatchInput r).squashesWaiting id = r.bru.squashes id := by
  obtain ⟨hsau, -⟩ := (Core.cycle_eq_some hc.core).feedbacks hw
  simp [DispatchInput.squashesWaiting, dispatchInput, FlushFeedback.squashesEqual, hsau]

/-- **While dispatch waits for an instruction** that is neither reported nor squashed, it lets
nothing go. -/
theorem Moves.stays_closed {sent' moved : List OpInfo} {k : Nat}
    (hm : p.Moves r d sent sent' moved k)
    (hi : p.dispatch.isInstWaiting = true)
    (hok : p.dispatch.instWaitingOk r.commit.feedback = false)
    (hsq : (p.dispatchInput r).squashesWaiting p.dispatch.instWaitingRobId = false) :
    moved = [] ∧ d.isInstWaiting = true
      ∧ d.instWaitingRobId = p.dispatch.instWaitingRobId := by
  have hclosed : p.dispatch.opens (p.dispatchInput r) = false := by
    rw [Dispatch.opens, hi, show (p.dispatchInput r).commit = r.commit.feedback from rfl, hok]
    rfl
  have hgate := hm.gate
  cases hgate with
  | closed _ hwaiting hrob _ =>
    have hi' : d.isInstWaiting = true := by
      rw [hwaiting, hi, hsq, show (p.dispatchInput r).commit = r.commit.feedback from rfl, hok]
      rfl
    exact ⟨rfl, hi', hrob hi'⟩
  | passing _ hopen _ _ _ =>
    rw [hclosed] at hopen
    cases hopen
  | inst _ hopen _ _ _ _ _ =>
    rw [hclosed] at hopen
    cases hopen
  | fence _ _ hopen _ _ _ _ _ _ =>
    rw [hclosed] at hopen
    cases hopen

/-- **An instruction dispatch waits for** keeps the gate closed until it retires. -/
theorem Serial.waits (hs : p.Serial sent) (hp : p.Places sent entered) (hw : p.world.Holds g₀)
    (hc : p.Cycle inp r d) {sent' moved l l' : List OpInfo} {k : Nat} {op : OpInfo}
    (hm : p.Moves r d sent sent' moved k) (hl : sent.drop k = l ++ op :: l')
    (hsq : r.bru.squashes op.robId = false) (hwait : op.waits = true) :
    l' = [] ∧ moved = [] ∧ op.opUnit.isLsu = false ∧ d.isInstWaiting = true
      ∧ d.instWaitingRobId = op.robId := by
  have hsent : sent = (sent.take k ++ l) ++ op :: l' := by
    rw [List.append_assoc, ← hl, List.take_append_drop]
  obtain ⟨rfl, hlsu, hi, hid⟩ := hs _ op l' hsent hwait
  have hinfo : op ∈ p.infos.drop k := by
    rw [hp.flight, List.drop_append_of_le_length hm.le, hl]
    simp
  have hok := not_instWaitingOk hw hc hm.commitFlush hm.retired hinfo hlsu hid
  obtain ⟨hnil, hi', hid'⟩ := hm.stays_closed hi hok
    ((squashesWaiting_eq hw hc _).trans (by rw [hid, hsq]))
  exact ⟨rfl, hnil, hlsu, hi', hid'.trans hid⟩

/-- **A cycle keeps it so.** -/
theorem Serial.step (hs : p.Serial sent) (hp : p.Places sent entered) (hw : p.world.Holds g₀)
    (hc : p.Cycle inp r d) {sent' moved : List OpInfo} {k : Nat}
    (hm : p.Moves r d sent sent' moved k) : (p.act inp r d).Serial sent' := by
  intro l op l' hsplit hwait
  -- an instruction that leaves in this cycle
  have hnew : ∀ a, moved = a ++ op :: l' → l' = [] ∧ op.opUnit.isLsu = false
      ∧ d.isInstWaiting = true ∧ d.instWaitingRobId = op.robId := by
    intro a ha
    have hmem : op ∈ moved := by
      rw [ha]
      simp
    obtain ⟨halone, hlsu⟩ := hm.turn.pack.alone op hmem hwait
    have hnil : l' = [] := by
      have hlen := congrArg List.length (ha.symm.trans halone)
      simp only [List.length_append, List.length_cons, List.length_nil] at hlen
      exact List.length_eq_zero_iff.mp (by omega)
    have hgate := hm.gate
    cases hgate with
    | closed => cases hmem
    | passing _ _ _ _ hno =>
      rw [(hno op hmem).1] at hwait
      cases hwait
    | inst op' _ _ _ hi hid _ =>
      rw [List.mem_singleton] at hmem
      subst hmem
      exact ⟨hnil, hlsu, hi, hid⟩
    | fence _ _ _ _ hno _ _ _ _ =>
      rw [hno op hmem] at hwait
      cases hwait
  rw [hm.sent] at hsplit
  rcases List.append_eq_append_iff.mp hsplit with ⟨a, -, ha⟩ | ⟨b, hb, hrest⟩
  · exact hnew a ha
  · cases b with
    | nil => exact hnew [] hrest.symm
    | cons op' b =>
      obtain ⟨rfl, hl'⟩ := List.cons.inj hrest
      obtain ⟨l₁, l₂, hdrop, -, h₂⟩ := List.filter_eq_append_iff.mp hb
      obtain ⟨l₃, l₄, rfl, -, hkept, h₄⟩ := List.filter_eq_cons_iff.mp h₂
      have hcut : sent.drop k = (l₁ ++ l₃) ++ op :: l₄ := by
        rw [hdrop, List.append_assoc]
      obtain ⟨rfl, rfl, hlsu, hi, hid⟩ := hs.waits hp hw hc hm hcut
        (by simpa [dispatchInput] using hkept) hwait
      refine ⟨?_, hlsu, hi, hid⟩
      rw [hl', ← h₄]
      rfl

/-! ## Only memory accesses are older -/

/-- **What dispatch has sent out before a CSR instruction or `mret`** and is still in flight are
loads and stores. -/
def BehindLsu (sent : List OpInfo) : Prop :=
  ∀ l op l', sent = l ++ op :: l' → op.waits = true → ∀ o ∈ l, o.opUnit.isLsu = true

/-- **When a CSR instruction or `mret` leaves**, at most one memory access is left of what has been
sent out. -/
theorem Moves.front_isLsu (hp : p.Places sent entered) (hw : p.world.Holds g₀)
    (hc : p.Cycle inp r d) {sent' moved : List OpInfo} {k : Nat} {op : OpInfo}
    (hm : p.Moves r d sent sent' moved k) (hop : op ∈ moved) (hwait : op.waits = true) :
    ∀ o ∈ sent.drop k, o.opUnit.isLsu = true := by
  obtain ⟨hrep, hmem⟩ := cycle_reported hw hc hm.commitFlush hm.retired
  -- it leaves as the next that commit handles
  have hnext : r.commit.feedback.nextHandleRobId = some op.robId.id := by
    have hgate := hm.gate
    cases hgate with
    | closed => cases hop
    | passing _ _ _ _ hno =>
      rw [(hno op hop).1] at hwait
      cases hwait
    | inst op' _ _ hnext _ _ _ =>
      rw [List.mem_singleton.mp hop]
      exact hnext
    | fence _ _ _ _ hno _ _ _ _ =>
      rw [hno op hop] at hwait
      cases hwait
  have hup : op ∈ p.upstream := by
    have hfront := List.mem_append_left d.front hop
    rw [hm.turn.front] at hfront
    rcases List.mem_append.mp (List.mem_of_mem_filter hfront) with h | h
    · exact List.mem_append_left _ h
    · unfold Dispatch.reads at h
      split at h
      · cases h
      · exact List.mem_append_right _ h
  obtain ⟨n, hn⟩ := List.mem_iff_getElem?.mp hup
  have hinfo : p.infos[sent.length + n]? = some op := by
    rw [hp.flight, List.getElem?_append_right (Nat.le_add_right _ _), Nat.add_sub_cancel_left, hn]
  rw [Pipe.infos, List.getElem?_map] at hinfo
  obtain ⟨f, hf, rfl⟩ := Option.map_eq_some_iff.mp hinfo
  rw [hrep.next] at hnext
  have hlen := slotAt_inj hw hnext hf
  intro o ho
  obtain ⟨j, hj, rfl⟩ := List.mem_iff_getElem.mp ho
  rw [List.length_drop] at hj
  cases hmis : p.world.core.misreports inp.cycle.commit.writeAck with
  | false =>
    rw [hmis] at hlen
    simp only [Bool.toNat_false] at hlen
    omega
  | true =>
    rw [hmis] at hlen
    simp only [Bool.toNat_true] at hlen
    obtain rfl : j = 0 := by omega
    have hk : k < sent.length := by omega
    have hget : p.infos[k]? = some (sent.drop k)[0] := by
      rw [hp.flight, List.getElem?_append_left hk, List.getElem?_eq_getElem hk, List.getElem_drop]
      rfl
    rw [Pipe.infos, List.getElem?_map] at hget
    obtain ⟨f', hf', hfo⟩ := Option.map_eq_some_iff.mp hget
    rw [← hfo]
    exact waitsOnMemory_isLsu hw hf' (hmem hmis)

/-- **A cycle keeps it so.** -/
theorem BehindLsu.step (hb : BehindLsu sent) (hp : p.Places sent entered) (hw : p.world.Holds g₀)
    (hc : p.Cycle inp r d) {sent' moved : List OpInfo} {k : Nat}
    (hm : p.Moves r d sent sent' moved k) : BehindLsu sent' := by
  intro l op l' hsplit hwait o ho
  -- an instruction that leaves in this cycle leaves alone
  have hnew : ∀ a, moved = a ++ op :: l' →
      l = Dispatch.kept (p.dispatchInput r) (sent.drop k) ++ a → o.opUnit.isLsu = true := by
    intro a ha hl
    have hop : op ∈ moved := by
      rw [ha]
      simp
    have halone := (hm.turn.pack.alone op hop hwait).1
    obtain rfl : a = [] := by
      have hlen := congrArg List.length (ha.symm.trans halone)
      simp only [List.length_append, List.length_cons, List.length_nil] at hlen
      exact List.length_eq_zero_iff.mp (by omega)
    rw [hl, List.append_nil] at ho
    exact hm.front_isLsu hp hw hc hop hwait o (List.mem_of_mem_filter ho)
  rw [hm.sent] at hsplit
  rcases List.append_eq_append_iff.mp hsplit with ⟨a, hl, ha⟩ | ⟨b, hb', hrest⟩
  · exact hnew a ha hl
  · cases b with
    | nil => exact hnew [] hrest.symm (by rw [hb', List.append_nil, List.append_nil])
    | cons op' b =>
      obtain ⟨rfl, -⟩ := List.cons.inj hrest
      obtain ⟨l₁, l₂, hdrop, h₁, h₂⟩ := List.filter_eq_append_iff.mp hb'
      obtain ⟨l₃, l₄, rfl, -, -, -⟩ := List.filter_eq_cons_iff.mp h₂
      have hcut : sent = (sent.take k ++ (l₁ ++ l₃)) ++ op :: l₄ := by
        rw [List.append_assoc, List.append_assoc, ← hdrop, List.take_append_drop]
      refine hb _ op l₄ hcut hwait o (List.mem_append_right _ (List.mem_append_left _ ?_))
      rw [← h₁] at ho
      exact List.mem_of_mem_filter ho

/-- **Every state of a run has its places**, and what waits is the last that was sent, behind
loads and stores. -/
theorem Run.cuts {P : Pipe → PipeInput → CycleResult → Prop} (h : Run P p) :
    ∃ sent entered, p.Places sent entered ∧ p.Serial sent ∧ BehindLsu sent := by
  induction h with
  | init =>
    exact ⟨[], fun _ => [], places_init, fun l op l' hl => by simp at hl,
      fun l op l' hl => by simp at hl⟩
  | @cycle p inp r d hrun hc hP ih =>
    obtain ⟨sent, entered, hp, hs, hb⟩ := ih
    obtain ⟨g₀, hw⟩ := hrun.world.holds
    obtain ⟨g, hw'⟩ := (Run.cycle inp r d hrun hc hP).world.holds
    rcases hp.step hw hw' hc with ⟨-, hp'⟩ | ⟨sent', entered', moved, k, hm, -, hp'⟩
    · exact ⟨[], fun _ => [], hp', fun l op l' hl => by simp at hl, fun l op l' hl => by simp at hl⟩
    · exact ⟨sent', entered', hp', hs.step hp hw hc hm, hb.step hp hw hc hm⟩

theorem Run.places {P : Pipe → PipeInput → CycleResult → Prop} (h : Run P p) :
    ∃ sent entered, p.Places sent entered ∧ p.Serial sent := by
  obtain ⟨sent, entered, hp, hs, -⟩ := h.cuts
  exact ⟨sent, entered, hp, hs⟩

end Pipe

end DreamCore
