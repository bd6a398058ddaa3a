import DreamCore.Backend.Waits

/-!
# Memory accesses behind a fence

Dispatch holds back what is behind a fence until commit has reported it, and
remembers one fence only, the last of the pack that has left. As long as that one
is in flight nothing follows, so that every memory access in flight behind a fence
is still in front of dispatch. A flush of the branch unit can squash the last fence
of a pack and spare the one before it; then nothing is waited for any more.
-/

namespace DreamCore

open Ring

namespace Pipe

variable {p : Pipe} {inp : PipeInput} {r : CycleResult} {d : Dispatch} {g₀ g : Ghost}
  {sent sent' moved : List OpInfo} {entered : Bool → List OpInfo} {k : Nat}

/-! ## The gate behind a fence -/

/-- **A fence that has left dispatch keeps the gate closed**: no memory access is behind it, and
dispatch waits for it or for a fence behind it. -/
def Fenced (p : Pipe) (sent : List OpInfo) : Prop :=
  ∀ l op l', sent = l ++ op :: l' → op.isFence = true → p.dispatch.isInstWaiting = true
    ∧ (∃ last ∈ op :: l', last.isFence = true ∧ last.robId = p.dispatch.instWaitingRobId)
    ∧ ∀ op' ∈ l', op'.opUnit.isLsu = false

/-- **A flush of the branch unit takes back the fence dispatch waits for and spares another**, which
does not retire in the cycle either. -/
def SparesFence (p : Pipe) (r : CycleResult) : Prop :=
  p.dispatch.isInstWaiting = true ∧ r.bru.squashes p.dispatch.instWaitingRobId = true
    ∧ ∃ op ∈ p.infos.drop r.commit.retired.length, op.isFence = true
      ∧ r.bru.squashes op.robId = false

/-- **A cycle keeps the gate closed**, unless a flush spares a fence. -/
theorem Fenced.step (hf : p.Fenced sent) (hp : p.Places sent entered) (hw : p.world.Holds g₀)
    (hr : DreamCore.Reachable p.world) (hc : p.Cycle inp r d)
    (hm : p.Moves r d sent sent' moved k) (hno : ¬ p.SparesFence r) :
    (p.act inp r d).Fenced sent' := by
  intro l op l' hsplit hfence
  -- a fence that leaves in this cycle
  have hnew : ∀ a, moved = a ++ op :: l' → d.isInstWaiting = true
      ∧ (∃ last ∈ op :: l', last.isFence = true ∧ last.robId = d.instWaitingRobId)
      ∧ ∀ op' ∈ l', op'.opUnit.isLsu = false := by
    intro a ha
    have hmem : op ∈ moved := by
      rw [ha]
      simp
    have hfenced := hm.turn.pack.fenced
    have hlsu : ∀ op' ∈ l', op'.opUnit.isLsu = false := by
      intro op' hop'
      rw [ha] at hfenced
      exact List.rel_of_pairwise_cons (List.pairwise_append.mp hfenced).2.1 hop' hfence
    have hgate := hm.gate
    cases hgate with
    | closed => cases hmem
    | passing _ _ _ _ hnone =>
      rw [(hnone op hmem).2] at hfence
      cases hfence
    | inst op' _ _ _ hi hid _ =>
      rw [List.mem_singleton] at hmem
      subst hmem
      exact ⟨hi, ⟨op, List.mem_cons_self .., hfence, hid.symm⟩, hlsu⟩
    | fence _ last _ hlast _ hi hid _ _ =>
      obtain ⟨hf', l₁, l₂, hmoved, hl₂⟩ := lastFence_eq_some hlast
      refine ⟨hi, ⟨last, ?_, hf', hid.symm⟩, hlsu⟩
      rw [ha] at hmoved
      rcases List.append_eq_append_iff.mp hmoved with ⟨e, -, he⟩ | ⟨e, -, he⟩
      · rw [he]
        simp
      · -- behind the last fence there is none
        cases e with
        | nil =>
          obtain ⟨rfl, -⟩ := List.cons.inj he
          exact List.mem_cons_self ..
        | cons x e =>
          obtain ⟨rfl, rfl⟩ := List.cons.inj he
          rw [hl₂ op (by simp)] at hfence
          cases hfence
  rw [hm.sent] at hsplit
  rcases List.append_eq_append_iff.mp hsplit with ⟨a, -, ha⟩ | ⟨b, hb, hrest⟩
  · exact hnew a ha
  · cases b with
    | nil => exact hnew [] hrest.symm
    | cons op' b =>
      obtain ⟨rfl, hl'⟩ := List.cons.inj hrest
      obtain ⟨l₁, l₂, hdrop, -, h₂⟩ := List.filter_eq_append_iff.mp hb
      obtain ⟨l₃, l₄, rfl, -, hkept, rfl⟩ := List.filter_eq_cons_iff.mp h₂
      have hcut : sent = (sent.take k ++ (l₁ ++ l₃)) ++ op :: l₄ := by
        rw [List.append_assoc, List.append_assoc, ← hdrop, List.take_append_drop]
      obtain ⟨hi, ⟨last, hlast, hlastFence, hid⟩, hlsu⟩ := hf _ op l₄ hcut hfence
      have hinfos : ∀ x ∈ op :: l₄, x ∈ p.infos.drop k := by
        intro x hx
        rw [hp.flight, List.drop_append_of_le_length hm.le, hdrop]
        exact List.mem_append_left _ (List.mem_append_right _ (List.mem_append_right _ hx))
      have hlastLsu : last.opUnit.isLsu = false := by
        have hmem := List.mem_of_mem_drop (hinfos last hlast)
        obtain ⟨f, hfm, rfl⟩ := List.mem_map.mp hmem
        exact isFence_isLsu hr hfm hlastFence
      have hok := not_instWaitingOk hw hc hm.commitFlush hm.retired (hinfos last hlast) hlastLsu
        hid.symm
      have hopsq : r.bru.squashes op.robId = false := by simpa [dispatchInput] using hkept
      have hnosq : r.bru.squashes p.dispatch.instWaitingRobId = false := by
        rw [Bool.eq_false_iff]
        intro hsq
        refine hno ⟨hi, hsq, op, ?_, hfence, hopsq⟩
        rw [hm.retired]
        exact hinfos op (List.mem_cons_self ..)
      obtain ⟨rfl, hi', hid'⟩ := hm.stays_closed hi hok ((squashesWaiting_eq hw hc _).trans hnosq)
      rw [List.append_eq, List.append_nil] at hl'
      refine ⟨hi', ⟨last, ?_, hlastFence, hid.trans hid'.symm⟩, fun op' hop' => ?_⟩
      · rw [hl']
        rcases List.mem_cons.mp hlast with rfl | hlast
        · exact List.mem_cons_self ..
        · refine List.mem_cons_of_mem _ (List.mem_filter.mpr ⟨hlast, ?_⟩)
          rw [hid]
          simpa [dispatchInput] using hnosq
      · rw [hl'] at hop'
        exact hlsu op' (List.mem_of_mem_filter hop')

/-- **As long as no flush spares a fence** the gate is closed behind every fence. -/
theorem Run.fenced (h : Run (fun p _ r => ¬ p.SparesFence r) p) :
    ∃ sent entered, p.Places sent entered ∧ p.Named sent ∧ p.Fenced sent := by
  have hnil : ∀ q : Pipe, q.Fenced [] := fun q l op l' hl => by simp at hl
  induction h with
  | init => exact ⟨[], fun _ => [], places_init, named_of_idle rfl rfl, hnil _⟩
  | @cycle p inp r d hrun hc hP ih =>
    obtain ⟨sent, entered, hp, hn, hf⟩ := ih
    obtain ⟨g₀, hw⟩ := hrun.world.holds
    obtain ⟨g, hw'⟩ := (Run.cycle inp r d hrun hc hP).world.holds
    rcases hp.step hw hw' hc with ⟨hfl, hp'⟩ | ⟨sent', entered', moved, k, hm, -, hp'⟩
    · have hd := hc.dropped hfl
      exact ⟨[], fun _ => [], hp', named_of_idle (by rw [act, hd]) (by rw [act, hd]), hnil _⟩
    · exact ⟨sent', entered', hp', hn.step hp hw hc hm hp' hw', hf.step hp hw hrun.world hc hm hP⟩

/-- The instruction has entered the issue queue of the LSU. -/
def EnteredLsu (p : Pipe) (op : OpInfo) : Prop :=
  op.toIssue ∈ p.queue true ∨ op.robId ∈ p.issued

/-- **Fences hold memory accesses back.** -/
structure FencesHold (p : Pipe) : Prop where
  /-- While a fence is in flight, the memory accesses behind it are held back by dispatch. -/
  ordered : ∀ older op younger, p.infos = older ++ op :: younger → op.isFence = true →
    ∀ op' ∈ younger, op'.opUnit.isLsu = true → op' ∈ p.upstream ∧ ¬ p.EnteredLsu op'
  /-- Once it has retired, no store before it is left in the store buffer. -/
  drained : ∀ older op younger, p.program = older ++ op :: younger → op.isFence = true →
    older.length < p.retired.length → ∀ slot ∈ p.world.storesInUse,
      ∃ st ∈ younger, st.storeSlot = some slot
  /-- Dispatch neither waits for what has been squashed nor holds it. -/
  waits : p.dispatch.isInstWaiting = true → ∃ op ∈ p.infos,
    op.robId = p.dispatch.instWaitingRobId ∧ (op.isFence = true ∨ op.waits = true)
  drains : p.dispatch.isStbufEmptyWaiting = true → ∃ op ∈ p.program, op.isFence = true
    ∧ op.robId = p.dispatch.stbufEmptyWaitingRobId
  held : ∀ op ∈ p.upstream, op ∈ p.infos

/-- What is in flight is behind what has retired. -/
theorem mem_younger {older younger : List OpInfo} {op op' : OpInfo}
    (hcut : p.program = older ++ op :: younger) (hlt : older.length < p.retired.length)
    (hop' : op' ∈ p.infos) : op' ∈ younger := by
  rw [program] at hcut
  rcases List.append_eq_append_iff.mp hcut with ⟨e, he, -⟩ | ⟨e, he, hrest⟩
  · rw [he, List.length_append] at hlt
    omega
  · cases e with
    | nil =>
      rw [he, List.append_nil] at hlt
      omega
    | cons x e =>
      obtain ⟨-, rfl⟩ := List.cons.inj hrest
      exact List.mem_append_right _ hop'

/-- What is behind an instruction in flight is in flight. -/
theorem infos_cut {older younger : List OpInfo} {op : OpInfo}
    (hcut : p.program = older ++ op :: younger) (hle : p.retired.length ≤ older.length) :
    p.infos = older.drop p.retired.length ++ op :: younger := by
  have hdrop := congrArg (List.drop p.retired.length) hcut
  rwa [program, List.drop_left, List.drop_append_of_le_length hle] at hdrop

/-- **Once a fence has retired** every store left in the store buffer is behind it. -/
theorem storesInUse_younger (hr : DreamCore.Reachable p.world) {older younger : List OpInfo}
    {op : OpInfo} (hcut : p.program = older ++ op :: younger)
    (hlt : older.length < p.retired.length) :
    ∀ slot ∈ p.world.storesInUse, ∃ st ∈ younger, st.storeSlot = some slot := by
  intro slot hslot
  rw [hr.storesInUse] at hslot
  obtain ⟨f, hmem, hslot⟩ := List.mem_filterMap.mp hslot
  exact ⟨f.info, mem_younger hcut hlt (List.mem_map_of_mem hmem), hslot⟩

/-- **A memory access behind a fence in flight** has not left dispatch. -/
theorem Fenced.behind (hf : p.Fenced sent) (hp : p.Places sent entered)
    {older younger : List OpInfo} {op op' : OpInfo} (hcut : p.infos = older ++ op :: younger)
    (hfence : op.isFence = true) (hop' : op' ∈ younger) (hlsu : op'.opUnit.isLsu = true) :
    op' ∈ p.upstream := by
  rw [hp.flight] at hcut
  rcases List.append_eq_append_iff.mp hcut with ⟨e, -, hup⟩ | ⟨e, hsent, hrest⟩
  · rw [hup]
    exact List.mem_append_right _ (List.mem_cons_of_mem _ hop')
  · cases e with
    | nil =>
      rw [List.nil_append] at hrest
      rw [← hrest]
      exact List.mem_cons_of_mem _ hop'
    | cons x e =>
      obtain ⟨rfl, rfl⟩ := List.cons.inj hrest
      rcases List.mem_append.mp hop' with hop' | hop'
      · rw [(hf older op e hsent hfence).2.2 op' hop'] at hlsu
        cases hlsu
      · exact hop'

/-- **Fences hold memory accesses back**, in every run in which no flush of the branch unit takes
back the fence dispatch waits for and spares another. -/
theorem fences_hold (h : Run (fun p _ r => ¬ p.SparesFence r) p) : p.FencesHold := by
  obtain ⟨sent, entered, hp, hn, hf⟩ := h.fenced
  obtain ⟨g, hw⟩ := h.world.holds
  have hinfos : ∀ op ∈ sent ++ p.upstream, op ∈ p.infos := by
    rw [hp.flight]
    exact fun op hop => hop
  refine ⟨fun older op younger hcut hfence op' hop' hlsu => ?_,
    fun older op younger hcut _ hlt => storesInUse_younger h.world hcut hlt, fun hi => ?_,
    fun hs => ?_, fun op hop => hinfos op (List.mem_append_right _ hop)⟩
  · have hup := hf.behind hp hcut hfence hop' hlsu
    refine ⟨hup, ?_⟩
    rintro (hq | hi)
    · obtain ⟨x, hx, he, -⟩ := hp.entered_sent
        (List.mem_of_mem_filter ((hp.queue true).mem_iff.mp hq))
      refine hp.not_upstream hw hx hup ?_
      rw [← OpInfo.toIssue_robId op', ← he, OpInfo.toIssue_robId]
    · exact hp.upstream op' hup hi
  · obtain ⟨op, hop, hid, hkind⟩ := hn.inst hi
    exact ⟨op, hinfos op (List.mem_append_left _ hop), hid, hkind⟩
  · obtain ⟨older, op, younger, hcut, hfence, hid, -⟩ := hn.fence hs
    refine ⟨op, ?_, hfence, hid⟩
    rw [program, hp.flight, ← List.append_assoc, hcut]
    simp

/-! ## The order of memory accesses -/

/-- What enters the issue queue of the LSU in a cycle. -/
def entering (p : Pipe) (inp : PipeInput) (r : CycleResult) : List OpInfo :=
  if r.commit.feedback.flush then [] else p.taken inp r true

/-- **A fence orders the memory accesses around it.** -/
structure FenceOrder (p : Pipe) : Prop where
  /-- A memory access enters the issue queue only after every fence before it has retired, and
  after every store before such a fence has left the store buffer. -/
  order : ∀ inp r d, p.Cycle inp r d → ∀ op ∈ p.entering inp r, ∃ x ∈ p.infos, x.toIssue = op
    ∧ ∀ older f younger, p.program = older ++ f :: younger → f.isFence = true → x ∈ younger →
      older.length < p.retired.length
        ∧ ∀ slot ∈ p.world.storesInUse, ∃ st ∈ younger, st.storeSlot = some slot
  /-- A flush that squashes what dispatch waits for ends both waits. -/
  squashed : ∀ inp r d, p.Cycle inp r d → (r.commit.feedback.flush = true
      ∨ (p.dispatch.isInstWaiting = true
        ∧ r.bru.squashes p.dispatch.instWaitingRobId = true)) →
    d.isInstWaiting = false ∧ d.isStbufEmptyWaiting = false
  /-- Dispatch holds nothing that has been squashed. -/
  held : ∀ op ∈ p.upstream, op ∈ p.infos

/-- **Dispatch waits no longer for what is squashed.** -/
theorem Moves.released (hm : p.Moves r d sent sent' moved k) (hp : p.Places sent entered)
    (hn : p.Named sent) (hw : p.world.Holds g₀) (hc : p.Cycle inp r d)
    (hi : p.dispatch.isInstWaiting = true)
    (hsq : r.bru.squashes p.dispatch.instWaitingRobId = true) :
    d.isInstWaiting = false ∧ d.isStbufEmptyWaiting = false := by
  have hflush : r.bru.flush = true := by
    rw [FlushFeedback.squashes, Bool.and_eq_true] at hsq
    exact hsq.1
  -- a flush leaves dispatch nothing to let go
  have hmoved : moved = [] := by
    have hall := hp.squashed hw hc hflush
    have hfront := hm.turn.front
    rw [Dispatch.kept_eq_nil] at hfront
    · exact (List.append_eq_nil_iff.mp hfront).1
    · intro op hop
      refine hall op (List.mem_append_left _ (List.mem_append_left _ ?_))
      unfold Dispatch.reads at hop
      split at hop
      · rw [List.append_nil] at hop
        exact List.mem_append_left _ hop
      · exact hop
  have hsqw := squashesWaiting_eq hw hc
  have hgate := hm.gate
  cases hgate with
  | closed _ hwaiting _ hstbuf =>
    have hi' : d.isInstWaiting = false := by
      rw [hwaiting, hsqw, hsq, Bool.or_true, Bool.not_true, Bool.and_false]
    refine ⟨hi', ?_⟩
    rw [Bool.eq_false_iff]
    intro hs
    obtain ⟨hs', -, hwhy⟩ := hstbuf hs
    rw [hi', hsqw, ← hn.same hi hs', hsq] at hwhy
    rcases hwhy with h | h
    · cases h
    · cases h
  | passing _ _ hi' hs' _ => exact ⟨hi', hs'⟩
  | inst => cases hmoved
  | fence _ _ _ hlast =>
    rw [hmoved] at hlast
    cases hlast

/-- **A fence orders the memory accesses around it**, in every run in which no flush of the branch
unit takes back the fence dispatch waits for and spares another. -/
theorem fences_order (h : Run (fun p _ r => ¬ p.SparesFence r) p) : p.FenceOrder := by
  obtain ⟨sent, entered, hp, hn, hf⟩ := h.fenced
  obtain ⟨g₀, hw⟩ := h.world.holds
  have hinfos : ∀ op ∈ sent ++ p.upstream, op ∈ p.infos := by
    rw [hp.flight]
    exact fun op hop => hop
  refine ⟨fun inp r d hc op hop => ?_, fun inp r d hc hwhy => ?_,
    fun op hop => hinfos op (List.mem_append_right _ hop)⟩
  · unfold entering at hop
    split at hop
    · cases hop
    · rename_i hfl
      obtain ⟨moved, k, hm⟩ := hp.moves hw hc (Bool.eq_false_iff.mpr hfl)
      obtain ⟨-, -, -, -, htaken, -⟩ := hp.class_next hw hc hm true
      obtain ⟨x, hx, hxop, hlsu⟩ := hp.waiting_sent (htaken op hop)
      refine ⟨x, hinfos x (List.mem_append_left _ hx), hxop,
        fun older f younger hcut hfence hy => ?_⟩
      have hlt : older.length < p.retired.length := by
        by_contra hge
        -- the fence would be in flight, and the access behind it still in dispatch
        have hup := hf.behind hp (infos_cut hcut (by omega)) hfence hy hlsu
        exact hp.not_upstream hw hx hup rfl
      exact ⟨hlt, storesInUse_younger h.world hcut hlt⟩
  · cases hfl : r.commit.feedback.flush with
    | true =>
      rw [hc.dropped hfl]
      exact ⟨rfl, rfl⟩
    | false =>
      rw [hfl] at hwhy
      obtain ⟨hi, hsq⟩ := hwhy.resolve_left Bool.false_ne_true
      obtain ⟨moved, k, hm⟩ := hp.moves hw hc hfl
      exact hm.released hp hn hw hc hi hsq

/-! ## A fence that is forgotten -/

/-- Without a branch no flush spares anything. -/
theorem not_sparesFence (hb : inp.cycle.bru = none) (hw : p.world.Holds g₀)
    (hc : p.world.core.cycle inp.cycle = some r) : ¬ p.SparesFence r := by
  rintro ⟨-, hsq, -⟩
  obtain ⟨-, hbru⟩ := (Core.cycle_eq_some hc).feedbacks hw
  have hfl : r.bru.flush = false := by
    rw [hbru, CycleInput.bruFb, hb]
    split <;> rfl
  rw [FlushFeedback.squashes, hfl] at hsq
  cases hsq

/-- A cycle in which rename is stalled because dispatch waits for an issue queue. -/
def whileWaiting (inp : Pipe → PipeInput) (p : Pipe) : PipeInput :=
  { inp p with cycle := { (inp p).cycle with dispatchStall := true } }

theorem whileWaiting_legal {inp : Pipe → PipeInput} (h : (inp p).Legal p) :
    (whileWaiting inp p).Legal p :=
  ⟨⟨h.cycle.decoded, h.cycle.results, h.cycle.bru, h.cycle.sau, h.cycle.sdu, h.cycle.lu⟩,
    h.branch, h.finished⟩

/-- A cycle in which the oldest branch that has issued is computed. -/
def resolves (p : Pipe) : PipeInput :=
  { cycle := { bru := (p.world.flight.find? fun f =>
      f.info.opUnit == .bru && decide (f.info.robId ∈ p.issued)).map (·.info.operands) } }

theorem resolves_legal (p : Pipe) : (resolves p).Legal p := by
  have hbranch : ∀ rev, (resolves p).cycle.bru = some rev → ∃ f ∈ p.world.flight,
      rev = f.info.operands ∧ f.info.opUnit = .bru ∧ f.info.robId ∈ p.issued := by
    intro rev hrev
    obtain ⟨f, hf, rfl⟩ := Option.map_eq_some_iff.mp hrev
    have hcond := List.find?_some hf
    rw [Bool.and_eq_true, beq_iff_eq, decide_eq_true_eq] at hcond
    exact ⟨f, List.mem_of_find?_eq_some hf, rfl, hcond.1, hcond.2⟩
  refine ⟨{ idle_legal p.world with
      decoded := by simp [resolves]
      bru := fun rev hrev => ?_ }, fun rev hrev => ?_, fun _ h => by simp [resolves] at h⟩
  · obtain ⟨f, hf, rfl, hu, -⟩ := hbranch rev hrev
    refine ⟨f, hf, operandsOf_operands f.info, ?_⟩
    simp [OpInfo.operands, OpInfo.toIssue, hu, OpUnit.isLsu]
  · obtain ⟨f, -, rfl, -, hissued⟩ := hbranch rev hrev
    rw [(operandsOf_operands f.info).robId]
    exact hissued

/-- `lw x1, 0(x0)`, `fence`, `beq x0, x0, 8` and another `fence`. The branch is predicted not to be
taken. -/
def branchBetween : List Fetch2DecodePack :=
  [plainPack 0x80000000 0x00002083, plainPack 0x80000004 0x0ff0000f,
    { enable := true
      pc := 0x80000008
      value := 0x00000463
      branchPredictorInfoPack := { predicted := true
                                   conditionJump := true
                                   nextPc := 0x8000000c } },
    plainPack 0x8000000c 0x0ff0000f]

/-- The branch is computed while dispatch waits for the second fence; behind it, on the right path,
is `lw x2, 0(x0)`. -/
def forgottenRun : List (Pipe → PipeInput) :=
  [fetches branchBetween, fetches [], whileWaiting fun _ => {}, whileWaiting issues,
    whileWaiting resolves, fetches [plainPack 0x80000010 0x00002103], fetches []]

/-- The state in which the second load has left dispatch. -/
def forgotten : Pipe := (Pipe.play forgottenRun Pipe.init).getD Pipe.init

theorem forgotten_reachable : forgotten.Reachable := by
  have hidle : ∀ p : Pipe, PipeInput.Legal p {} := fun p =>
    ⟨idle_legal p.world, (fun _ h => by cases h), fun _ h => by cases h⟩
  have hpacks : ∀ q ∈ branchBetween, q.FetchOk := by
    intro q hq
    simp only [branchBetween, List.mem_cons, List.not_mem_nil, or_false] at hq
    rcases hq with rfl | rfl | rfl | rfl
    · exact plainPack_ok ..
    · exact plainPack_ok ..
    · exact ⟨rfl, fun _ => by decide⟩
    · exact plainPack_ok ..
  have hload : ∀ q ∈ [plainPack 0x80000010 0x00002103], q.FetchOk := by
    intro q hq
    rw [List.mem_singleton.mp hq]
    exact plainPack_ok ..
  obtain ⟨p, hp⟩ : ∃ p, Pipe.play forgottenRun Pipe.init = some p :=
    Option.isSome_iff_exists.mp (by decide +kernel)
  rw [forgotten, hp, Option.getD_some]
  refine Run.play _ ?_ .init hp
  intro inp hinp p
  simp only [forgottenRun, List.mem_cons, List.not_mem_nil, or_false] at hinp
  rcases hinp with rfl | rfl | rfl | rfl | rfl | rfl | rfl
  · exact ⟨fetches_legal hpacks p, fun _ => trivial⟩
  · exact ⟨fetches_legal (by simp) p, fun _ => trivial⟩
  · exact ⟨whileWaiting_legal (hidle p), fun _ => trivial⟩
  · exact ⟨whileWaiting_legal (issues_legal p), fun _ => trivial⟩
  · exact ⟨whileWaiting_legal (resolves_legal p), fun _ => trivial⟩
  · exact ⟨fetches_legal hload p, fun _ => trivial⟩
  · exact ⟨fetches_legal (by simp) p, fun _ => trivial⟩

/-- **A load passes a fence** that a mispredicted branch separates from the one dispatch waits
for: it enters the issue queue while the fence is in flight. -/
theorem forgotten_passes : ¬ ∀ p : Pipe, p.Reachable → p.FenceOrder := by
  intro h
  obtain ⟨p, hp⟩ : ∃ p, forgotten.step (fetches [] forgotten) = some p :=
    Option.isSome_iff_exists.mp (by decide +kernel)
  obtain ⟨r, d, hc, -⟩ := step_eq_some (fetches_legal (by simp) _) hp
  have hent : (forgotten.world.core.cycle (fetches [] forgotten).cycle).map (fun r =>
      (forgotten.entering (fetches [] forgotten) r).map fun op => op.robId.id) = some [3] := by
    decide +kernel
  rw [hc.core, Option.map_some, Option.some.injEq] at hent
  obtain ⟨op, l, hl, hid, -⟩ := List.map_eq_cons_iff.mp hent
  obtain ⟨x, hx, rfl, horder⟩ := (h forgotten forgotten_reachable).order _ r d hc op
    (by rw [hl]; exact List.mem_cons_self ..)
  rw [OpInfo.toIssue_robId] at hid
  have hinfos : forgotten.infos.map (fun op => (op.isFence, op.robId.id))
      = [(false, 0), (true, 1), (false, 2), (false, 3)] := by decide +kernel
  have hretired : forgotten.retired.length = 0 := by decide +kernel
  obtain ⟨lw₁, l₁, hl₁, hlw₁, hinfos⟩ := List.map_eq_cons_iff.mp hinfos
  obtain ⟨fence, l₂, rfl, hfence, -⟩ := List.map_eq_cons_iff.mp hinfos
  rw [Prod.mk.injEq] at hlw₁ hfence
  have hprogram : forgotten.program = [lw₁] ++ fence :: l₂ := by
    rw [program, List.length_eq_zero_iff.mp hretired, hl₁]
    rfl
  -- the load is neither the first load nor the fence
  have hbehind : x ∈ l₂ := by
    rw [hl₁, List.mem_cons, List.mem_cons] at hx
    rcases hx with rfl | rfl | hx
    · omega
    · omega
    · exact hx
  have hlt := (horder [lw₁] fence l₂ hprogram hfence.1 hbehind).1
  rw [hretired] at hlt
  exact Nat.not_lt_zero _ hlt

/-- A cycle without a branch spares no fence. -/
theorem unbranched_run {inp : PipeInput} (hl : inp.Legal p) (hb : inp.cycle.bru = none) {p' : Pipe}
    (h : Run (fun p _ r => ¬ p.SparesFence r) p) (hstep : p.step inp = some p') :
    Run (fun p _ r => ¬ p.SparesFence r) p' := by
  obtain ⟨g, hw⟩ := h.world.holds
  obtain ⟨r, d, hc, rfl⟩ := step_eq_some hl hstep
  exact .cycle _ r d h hc (not_sparesFence hb hw hc.core)

/-- **A script without a branch** is a run in which no fence is spared. -/
theorem unbranched_play (script : List (Pipe → PipeInput))
    (hlegal : ∀ inp ∈ script, ∀ p, (inp p).Legal p ∧ (inp p).cycle.bru = none) {p' : Pipe}
    (h : Run (fun p _ r => ¬ p.SparesFence r) p) (hplay : Pipe.play script p = some p') :
    Run (fun p _ r => ¬ p.SparesFence r) p' := by
  induction script generalizing p with
  | nil =>
    cases hplay
    exact h
  | cons inp script ih =>
    obtain ⟨p₁, h₁, hplay⟩ := Option.bind_eq_some_iff.mp hplay
    obtain ⟨hl, hb⟩ := hlegal inp (List.mem_cons_self ..) p
    exact ih (fun i hi => hlegal i (List.mem_cons_of_mem _ hi)) (unbranched_run hl hb h h₁) hplay

/-- `fence` and, in the cycle after it, `lw x1, 0(x0)`. -/
def fenceLoadRun : List (Pipe → PipeInput) :=
  [fetches [plainPack 0x80000000 0x0ff0000f], fetches [plainPack 0x80000004 0x00002083]]

theorem fenceLoadRun_legal : ∀ inp ∈ fenceLoadRun, ∀ p,
    (inp p).Legal p ∧ (inp p).cycle.bru = none := by
  have hpack : ∀ pc value, ∀ q ∈ [plainPack pc value], q.FetchOk := by
    intro pc value q hq
    rw [List.mem_singleton.mp hq]
    exact plainPack_ok ..
  intro inp hinp p
  simp only [fenceLoadRun, List.mem_cons, List.not_mem_nil, or_false] at hinp
  rcases hinp with rfl | rfl
  · exact ⟨fetches_legal (hpack _ _) p, rfl⟩
  · exact ⟨fetches_legal (hpack _ _) p, rfl⟩

/-- A load waits behind a fence that is in flight. -/
theorem fences_hold_fenceLoad : ∃ p : Pipe, p.infos.map (fun op => (op.isFence, op.opUnit.isLsu))
    = [(true, false), (false, true)] ∧ p.FencesHold := by
  obtain ⟨p, hp⟩ : ∃ p, Pipe.play fenceLoadRun Pipe.init = some p :=
    Option.isSome_iff_exists.mp (by decide +kernel)
  have hstate : (Pipe.play fenceLoadRun Pipe.init).map (fun p =>
      p.infos.map fun op => (op.isFence, op.opUnit.isLsu)) = some [(true, false), (false, true)] := by
    decide +kernel
  rw [hp, Option.map_some, Option.some.injEq] at hstate
  exact ⟨p, hstate, fences_hold (unbranched_play _ fenceLoadRun_legal .init hp)⟩

/-- The fence issues, is computed and retires, and the load leaves dispatch. -/
def fenceRetiresRun : List (Pipe → PipeInput) :=
  fenceLoadRun
    ++ [whileWaiting fun _ => {}, whileWaiting issues, whileWaiting computes, fetches []]

/-- A load enters the issue queue behind a fence that has retired. -/
theorem fences_order_fenceLoad : ∃ (p : Pipe) (inp : PipeInput) (r : CycleResult) (d : Dispatch),
    p.Cycle inp r d
    ∧ p.program.map (fun op => (op.isFence, op.opUnit.isLsu)) = [(true, false), (false, true)]
    ∧ p.retired.length = 1 ∧ (p.entering inp r).length = 1 ∧ p.FenceOrder := by
  have hidle : ∀ p : Pipe, PipeInput.Legal p {} := fun p =>
    ⟨idle_legal p.world, (fun _ h => by cases h), fun _ h => by cases h⟩
  obtain ⟨p, hp⟩ : ∃ p, Pipe.play fenceRetiresRun Pipe.init = some p :=
    Option.isSome_iff_exists.mp (by decide +kernel)
  have hstate : (Pipe.play fenceRetiresRun Pipe.init).map (fun p =>
      (p.program.map (fun op => (op.isFence, op.opUnit.isLsu)), p.retired.length,
        (p.step (fetches [] p)).isSome,
        (p.world.core.cycle (fetches [] p).cycle).map fun r =>
          (p.entering (fetches [] p) r).length))
      = some ([(true, false), (false, true)], 1, true, some 1) := by decide +kernel
  rw [hp, Option.map_some, Option.some.injEq, Prod.mk.injEq, Prod.mk.injEq, Prod.mk.injEq] at hstate
  obtain ⟨hprogram, hretired, hnext, hent⟩ := hstate
  obtain ⟨p', hp'⟩ := Option.isSome_iff_exists.mp hnext
  obtain ⟨r, d, hc, -⟩ := step_eq_some (fetches_legal (by simp) p) hp'
  rw [hc.core, Option.map_some, Option.some.injEq] at hent
  refine ⟨p, fetches [] p, r, d, hc, hprogram, hretired, hent,
    fences_order (unbranched_play _ (fun inp hinp q => ?_) .init hp)⟩
  rcases List.mem_append.mp hinp with hinp | hinp
  · exact fenceLoadRun_legal inp hinp q
  · simp only [List.mem_cons, List.not_mem_nil, or_false] at hinp
    rcases hinp with rfl | rfl | rfl | rfl
    · exact ⟨whileWaiting_legal (hidle q), rfl⟩
    · exact ⟨whileWaiting_legal (issues_legal q), rfl⟩
    · exact ⟨whileWaiting_legal (computes_legal q), rfl⟩
    · exact ⟨fetches_legal (by simp) q, rfl⟩

end Pipe

end DreamCore
