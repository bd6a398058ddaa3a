import DreamCore.Memory.Device
import DreamCore.Memory.Drain

/-!
# Noncacheable stores are sent once and answered before they leave

The core is a party with one request at a time: an instruction is a turn, and the
turn of a noncacheable store needs an answer. Commit remembers no more of the
request than one flag, and the acknowledgement names no store. The invariant says
what the flag and the acknowledgement stand for; the rest is what the order of
events is worth.
-/

namespace DreamCore

open Exchange Ring

variable {w : World} {g₀ g : Ghost} {d : DeviceWorld} {inp : DeviceWorld.Input} {r : CycleResult}
  {c : CommitState} {n : Nat} {p : Phase DeviceWrite BusErrno}

/-- It leaves without the bus having been asked: no store to a device, or an exception. -/
def Leaving.Plain (c : Leaving) : Prop := c.trap = none → ∀ e, c.store = some e → ¬ e.Device

/-- The store leaves with the answer to its own write. -/
def DeviceWrite.Done (q : DeviceWrite) (b : BusErrno) (c : Leaving) : Prop :=
  q.store.Device ∧ c.op = q.op ∧ c.store = some q.store
    ∧ ∃ op, q.op = some op ∧ match b with
      | .none => c.trap = none
      | .error => ∃ csr, c.trap = some csr ∧ csr.readSys csrMepc = op.pc &&& ~~~3
          ∧ csr.readSys csrMtval = q.store.addr
          ∧ csr.readSys csrMcause = RiscvException.storeAmoAccessFault.toWord

/-- `q` is the write of the oldest instruction in flight, a store that nothing keeps from the
bus. -/
def DeviceWorld.Owes (d : DeviceWorld) (q : DeviceWrite) : Prop :=
  ∃ f rest, d.world.flight = f :: rest
    ∧ d.world.core.Asks (d.world.core.rob.buffer f.info.robId.id)
    ∧ q = ⟨some f.info, d.world.core.storeOf (d.world.core.rob.buffer f.info.robId.id)⟩

/-- **What the flag of commit and the acknowledgement stand for.** -/
def DeviceWorld.Stage (d : DeviceWorld) : Phase DeviceWrite BusErrno → Prop
  | .idle => d.world.core.isWaitingAck = false
  | .sent q => d.world.core.isWaitingAck = true ∧ d.bus.dataWriteAck = none ∧ d.Owes q
  | .answered q b => d.world.core.isWaitingAck = true ∧ d.bus.dataWriteAck = some b ∧ d.Owes q

/-- The log, and where the oldest instruction stands. -/
structure DeviceWorld.Tells (d : DeviceWorld) (n : Nat) (p : Phase DeviceWrite BusErrno) :
    Prop where
  trace : Trace Leaving.Plain DeviceWrite.Done d.log n p
  stage : d.Stage p
  stores : StoresOk d.world
  /-- An entry has the pc of its instruction. -/
  located : ∀ f ∈ d.world.flight,
    (d.world.core.rob.buffer f.info.robId.id).pc = f.info.pc

theorem tells_init : DeviceWorld.init.Tells 0 .idle where
  trace := .start
  stage := rfl
  stores := storesOk_init
  located := by simp [DeviceWorld.init, World.init]

/-! ## What leaves in a cycle -/

/-- What leaves without an exception has retired. -/
theorem leavings_retired {i : Nat} {x : Leaving} (hx : (w.leavings c)[i]? = some x)
    (ht : x.trap = none) : ∃ e, c.retired[i]? = some e ∧ x.op = w.flight[i]?.map Flight.info
      ∧ x.store = if e.2.storeBufferIdValid then some (w.core.storeOf e.2) else none := by
  rw [World.leavings, List.getElem?_mapIdx] at hx
  obtain ⟨e, he, rfl⟩ := Option.map_eq_some_iff.mp hx
  refine ⟨e, ?_, rfl, rfl⟩
  unfold CommitState.retired
  split
  · rename_i hex
    have hlast : i + 1 ≠ c.retireQueue.length := by
      intro hi
      simp [hex, hi] at ht
    obtain ⟨hi, -⟩ := List.getElem?_eq_some_iff.mp he
    rw [List.getElem?_dropLast, if_pos (by omega), he]
  · exact he

/-- **What leaves is plain** when no retired store goes to a device. -/
theorem leavings_plain
    (h : ∀ e ∈ c.retired, e.2.storeBufferIdValid = true → ¬ (w.core.storeOf e.2).Device) :
    ∀ x ∈ w.leavings c, x.Plain := by
  intro x hx ht e he
  obtain ⟨i, hi⟩ := List.mem_iff_getElem?.mp hx
  obtain ⟨y, hy, -, hstore⟩ := leavings_retired hi ht
  rw [hstore] at he
  split at he
  · rename_i hv
    cases he
    exact h y (List.mem_of_getElem? hy) hv
  · cases he

theorem leavings_length : (w.leavings c).length = c.retireQueue.length := List.length_mapIdx

/-- The first to leave, when it has retired, and the others. -/
theorem leavings_cons {e : Nat × RobItem} {l : List (Nat × RobItem)} (h : c.retired = e :: l)
    (hno : NoStore l) : ∃ x rest, w.leavings c = x :: rest ∧ x.op = w.flight[0]?.map Flight.info
      ∧ x.store = (if e.2.storeBufferIdValid then some (w.core.storeOf e.2) else none)
      ∧ x.trap = none ∧ ∀ y ∈ rest, y.Plain := by
  have hlen : c.retired.length ≤ c.retireQueue.length := by
    unfold CommitState.retired
    split
    · rw [List.length_dropLast]
      omega
    · exact Nat.le_refl _
  rw [h, List.length_cons, ← leavings_length (w := w)] at hlen
  cases hw : w.leavings c with
  | nil =>
    rw [hw, List.length_nil] at hlen
    omega
  | cons x rest =>
    have hx : (w.leavings c)[0]? = some x := by rw [hw]; rfl
    -- the first raises no exception, or it would not have retired
    have ht : x.trap = none := by
      rw [World.leavings, List.getElem?_mapIdx] at hx
      obtain ⟨y, hy, rfl⟩ := Option.map_eq_some_iff.mp hx
      dsimp only
      rw [if_neg]
      intro hc
      rw [Bool.and_eq_true, beq_iff_eq] at hc
      have hr : c.retired.length = c.retireQueue.length - 1 := by
        rw [CommitState.retired, hc.1, if_pos rfl, List.length_dropLast]
      rw [h, List.length_cons, ← hc.2] at hr
      omega
    obtain ⟨y, hy, hop, hstore⟩ := leavings_retired hx ht
    rw [h] at hy
    cases hy
    refine ⟨x, rest, rfl, hop, hstore, ht, fun z hz hzt e' he' => ?_⟩
    obtain ⟨i, hi⟩ := List.mem_iff_getElem?.mp hz
    have hi' : (w.leavings c)[i + 1]? = some z := by rw [hw, List.getElem?_cons_succ, hi]
    obtain ⟨y', hy', -, hstore'⟩ := leavings_retired hi' hzt
    rw [h, List.getElem?_cons_succ] at hy'
    rw [hstore', hno y' (List.mem_of_getElem? hy')] at he'
    cases he'

/-! ## The oldest store and the bus -/

/-- The core sees a run of its own. -/
theorem DeviceReachable.world (h : DeviceReachable d) : Reachable d.world := by
  induction h with
  | init => exact .init
  | cycle inp r _ hl hr ih => exact .cycle inp.cycle r ih hl.cycle trivial hr

/-- A cycle without a write leaves no answer. -/
theorem load_ack (d : DeviceWorld) (inp : DeviceWorld.Input) :
    (d.load inp).dataWriteAck = none := by
  have hstart : (if inp.use.revoke then DataBus.revokeDataRequest d.bus d.bus.start
      else d.bus.start).dataWriteAck = none := by
    split
    · rw [DataBus.revokeDataRequest_dataWriteAck, DataBus.start_dataWriteAck]
    · exact DataBus.start_dataWriteAck d.bus
  unfold DeviceWorld.load noncacheableRead
  dsimp only
  split
  · split
    · split
      · rw [DataBus.setDataValue_dataWriteAck]
        exact hstart
      · exact hstart
    · exact hstart
  · exact hstart

/-- The front commit looks at is the oldest in flight. -/
theorem DeviceWorld.front (hw : d.world.Holds g) (inp : DeviceWorld.Input) {f : Flight}
    {rest : List Flight} (hf : d.world.flight = f :: rest) {id : Nat}
    (hid : Fifo.customerGetFrontId d.world.core.rob (inp.cycle.early d.world.core).rob = some id) :
    id = f.info.robId.id := by
  rw [hw.front (early_sameWindow d.world.core inp.cycle), hf, List.head?_cons, Option.map_some] at hid
  exact (Option.some.inj hid).symm

/-- **A write that is owed stays owed** while nothing retires and nothing is flushed. -/
theorem owes_kept (hw : d.world.Holds g₀) (hok : StoresOk d.world) (hl : d.Legal inp)
    (hr : d.world.core.cycle inp.cycle = some r) (hnext : (d.world.act r).Holds g)
    (hret : r.commit.retired = []) (hfl : r.commit.feedback.flush = false) {q : DeviceWrite}
    (hq : d.Owes q) : (d.act inp r).Owes q := by
  obtain ⟨f, rest, hf, ha, rfl⟩ := hq
  have hplaced := (storesOk_step hw hok hl.cycle hl.timely hr hnext).placed
  obtain ⟨rest', hf', ha'⟩ :=
    asks_kept hw hok hl.cycle hl.timely hr hnext hplaced hf hret hfl ha
  obtain ⟨-, hcell, hstore⟩ :=
    oldest_entries_kept hw hok hl.cycle hl.timely hr hnext hplaced hf hret hfl ha
  refine ⟨f, rest', hf', ha', ?_⟩
  have hmem : f ∈ d.world.flight := by rw [hf]; exact List.mem_cons_self ..
  change _ = (⟨some f.info, r.next.storeOf (r.next.rob.buffer f.info.robId.id)⟩ : DeviceWrite)
  rw [hcell]
  simp only [Core.storeOf, hok.entry f hmem]
  simp only [Core.storeCell, Prod.mk.injEq] at hstore
  rw [hstore.1, hstore.2.1, hstore.2.2]

/-- Where the flag stands, the write is owed, and the acknowledgement says whether it is answered. -/
theorem stage_waiting (hs : d.Stage p) (hw : d.world.core.isWaitingAck = true) :
    ∃ q, d.Owes q ∧ ((p = .sent q ∧ d.bus.dataWriteAck = none)
      ∨ ∃ b, p = .answered q b ∧ d.bus.dataWriteAck = some b) := by
  cases p with
  | idle =>
    rw [show d.world.core.isWaitingAck = false from hs] at hw
    cases hw
  | sent q => exact ⟨q, hs.2.2, .inl ⟨rfl, hs.2.1⟩⟩
  | answered q b => exact ⟨q, hs.2.2, .inr ⟨b, rfl, hs.2.1⟩⟩

theorem stage_idle (hs : d.Stage p) (hw : d.world.core.isWaitingAck = false) : p = .idle := by
  cases p with
  | idle => rfl
  | sent q =>
    rw [hs.1] at hw
    cases hw
  | answered q b =>
    rw [hs.1] at hw
    cases hw

/-- The log after a cycle that sends nothing. -/
theorem act_log_quiet (d : DeviceWorld) (inp : DeviceWorld.Input)
    (hb : r.commit.busWrite = none) :
    (d.act inp r).log = d.log ++ ended (turns d.log) (d.world.leavings r.commit) := by
  unfold DeviceWorld.act
  simp only [hb, DeviceWorld.asks, List.append_nil]

/-! ## One cycle -/

/-- The log is in order, and the flag and the acknowledgement stand for where it ends. -/
def DeviceWorld.InOrder (d : DeviceWorld) : Prop :=
  ∃ n p, Trace Leaving.Plain DeviceWrite.Done d.log n p ∧ d.Stage p

/-- Nothing at the front asks the bus: what leaves is plain. -/
theorem trace_silent (hw : d.world.Holds g₀) (hl : d.Legal inp)
    (hr : d.world.core.cycle inp.cycle = some r) (h : d.Tells n p)
    (hn : ∀ id, Fifo.customerGetFrontId d.world.core.rob (inp.cycle.early d.world.core).rob
      = some id → ¬ d.world.core.Asks (d.world.core.rob.buffer id))
    (hb : r.commit.busWrite = none) :
    (d.act inp r).InOrder := by
  obtain ⟨htrace, hstage, hok, hlocated⟩ := h
  obtain ⟨-, hwait, -, -⟩ := cycle_stores hw hl.cycle hr
  obtain ⟨hearly, -⟩ := early_waits d.world.core inp.cycle
  have heff := cycle_storeEffect hw hr
  have hturns := htrace.turns_eq
  -- who waits is the oldest in flight, and it would ask
  have hidle : d.world.core.isWaitingAck = false := by
    rw [Bool.eq_false_iff]
    intro hwaits
    obtain ⟨f, rest, hf, ha⟩ := hok.waiting hwaits
    refine hn f.info.robId.id ?_ ha
    rw [hw.front (early_sameWindow d.world.core inp.cycle), hf]
    rfl
  have hp := stage_idle hstage hidle
  subst hp
  have hplain : (∀ x ∈ d.world.leavings r.commit, x.Plain)
      ∧ r.commit.new.isWaitingAck = false := by
    cases heff with
    | quiet _ hs hno =>
      refine ⟨leavings_plain fun e he hv => ?_, by rw [hs.waiting, hearly, hidle]⟩
      rw [hno e he] at hv
      cases hv
    | pushed id item l ring hret hno hv _ hc _ _ _ hw' _ =>
      refine ⟨leavings_plain fun e he hev => ?_, hw'⟩
      rw [hret] at he
      rcases List.mem_cons.mp he with rfl | he
      · intro hdev
        rw [RetiredStoreBufferItem.Device, hc] at hdev
        cases hdev
      · rw [hno e he] at hev
        cases hev
    | asked id hid ha => exact absurd ha (hn id hid)
    | waits _ _ hw' =>
      rw [hearly, hidle] at hw'
      cases hw'
    | answered _ _ _ _ _ hw' =>
      rw [hearly, hidle] at hw'
      cases hw'
    | failed _ hw' =>
      rw [hearly, hidle] at hw'
      cases hw'
  refine ⟨n + (d.world.leavings r.commit).length, .idle, ?_, ?_⟩
  · rw [act_log_quiet d inp hb, hturns]
    exact htrace.plain_list _ hplain.1
  · change r.next.isWaitingAck = false
    rw [hwait]
    exact hplain.2

/-- The write of the oldest in flight goes out. -/
theorem trace_sent (hw : d.world.Holds g₀) (hl : d.Legal inp)
    (hr : d.world.core.cycle inp.cycle = some r) (hnext : (d.world.act r).Holds g)
    (h : d.Tells n p)
    {id : Nat} (hid : Fifo.customerGetFrontId d.world.core.rob
      (inp.cycle.early d.world.core).rob = some id)
    (ha : d.world.core.Asks (d.world.core.rob.buffer id))
    (hw' : (inp.cycle.early d.world.core).isWaitingAck = false)
    (hb : r.commit.busWrite = some (d.world.core.storeOf (d.world.core.rob.buffer id)).write)
    (hq : r.commit.retireQueue = []) :
    (d.act inp r).InOrder := by
  obtain ⟨htrace, hstage, hok, hlocated⟩ := h
  obtain ⟨-, hwait, -, -⟩ := cycle_stores hw hl.cycle hr
  obtain ⟨hearly, -⟩ := early_waits d.world.core inp.cycle
  have heff := cycle_storeEffect hw hr
  have hturns := htrace.turns_eq
  rw [hearly] at hw'
  have hp := stage_idle hstage hw'
  subst hp
  -- the write is the one of the oldest in flight
  obtain ⟨f, rest, hf, rfl⟩ : ∃ f rest, d.world.flight = f :: rest ∧ id = f.info.robId.id := by
    cases hf : d.world.flight with
    | nil =>
      rw [hw.front (early_sameWindow d.world.core inp.cycle), hf] at hid
      cases hid
    | cons f rest => exact ⟨f, rest, rfl, d.front hw inp hf hid⟩
  have howes : d.Owes
      ⟨some f.info, d.world.core.storeOf (d.world.core.rob.buffer f.info.robId.id)⟩ :=
    ⟨f, rest, hf, ha, rfl⟩
  have hflush : r.commit.feedback.flush = false ∧ r.commit.new.isWaitingAck = true := by
    cases heff with
    | quiet hn => exact absurd ha (hn _ hid)
    | pushed _ _ _ _ hret =>
      rw [CommitState.retired, hq] at hret
      split at hret <;> cases hret
    | asked _ _ _ _ hfl _ hw'' => exact ⟨hfl, hw''⟩
    | waits _ _ hw'' =>
      rw [hearly, hw'] at hw''
      cases hw''
    | answered _ _ _ _ _ hw'' =>
      rw [hearly, hw'] at hw''
      cases hw''
    | failed _ hw'' =>
      rw [hearly, hw'] at hw''
      cases hw''
  have hret : r.commit.retired = [] := by
    rw [CommitState.retired, hq]
    split <;> rfl
  have hnone : d.world.leavings r.commit = [] := by rw [World.leavings, hq]; rfl
  have hkept := owes_kept hw hok hl hr hnext hret hflush.1 howes
  have hflag : r.next.isWaitingAck = true := hwait.trans hflush.2
  have hlog : (d.act inp r).log = d.log ++ .sent n
      ⟨some f.info, d.world.core.storeOf (d.world.core.rob.buffer f.info.robId.id)⟩
        :: ((d.act inp r).bus.dataWriteAck.map fun b => .answered n b).toList := by
    unfold DeviceWorld.act
    simp only [hnone, hb, hturns, ended, List.append_nil, List.length_nil, Nat.add_zero, hf]
    rfl
  have hsent := htrace.sent
    ⟨some f.info, d.world.core.storeOf (d.world.core.rob.buffer f.info.robId.id)⟩
  cases hack : (d.act inp r).bus.dataWriteAck with
  | none =>
    rw [hack] at hlog
    exact ⟨n, .sent _, hlog ▸ hsent, hflag, hack, hkept⟩
  | some b =>
    rw [hack, Option.map_some, Option.toList_some] at hlog
    refine ⟨n, .answered _ b, ?_, hflag, hack, hkept⟩
    rw [hlog, ← List.singleton_append, ← List.append_assoc]
    exact hsent.answered b

/-- The write has gone out, and there is no answer. -/
theorem trace_waits (hw : d.world.Holds g₀) (hl : d.Legal inp)
    (hr : d.world.core.cycle inp.cycle = some r) (hnext : (d.world.act r).Holds g)
    (h : d.Tells n p)
    (hw' : (inp.cycle.early d.world.core).isWaitingAck = true)
    (hack : inp.cycle.commit.writeAck = none) (hb : r.commit.busWrite = none)
    (hq : r.commit.retireQueue = []) :
    (d.act inp r).InOrder := by
  obtain ⟨htrace, hstage, hok, hlocated⟩ := h
  obtain ⟨-, hwait, -, -⟩ := cycle_stores hw hl.cycle hr
  obtain ⟨hearly, -⟩ := early_waits d.world.core inp.cycle
  have heff := cycle_storeEffect hw hr
  have hturns := htrace.turns_eq
  rw [hearly] at hw'
  obtain ⟨q, howes, ⟨rfl, -⟩ | ⟨b, -, hsome⟩⟩ := stage_waiting hstage hw'
  swap
  · rw [hl.writeAck, hsome] at hack
    cases hack
  have hret : r.commit.retired = [] := by
    rw [CommitState.retired, hq]
    split <;> rfl
  have hnone : d.world.leavings r.commit = [] := by rw [World.leavings, hq]; rfl
  have hflush : r.commit.feedback.flush = false ∧ r.commit.new.isWaitingAck = true := by
    cases heff with
    | quiet hn =>
      obtain ⟨f, rest, hf, ha, -⟩ := howes
      refine absurd ha (hn _ ?_)
      rw [hw.front (early_sameWindow d.world.core inp.cycle), hf]
      rfl
    | pushed _ _ _ _ _ _ _ hw'' =>
      rw [hearly, hw'] at hw''
      cases hw''
    | asked _ _ _ _ _ hw'' =>
      rw [hearly, hw'] at hw''
      cases hw''
    | waits _ hfl _ _ hs => exact ⟨hfl, hs.waiting.trans (hearly.trans hw')⟩
    | answered _ _ _ _ _ _ hack' =>
      rw [hack] at hack'
      cases hack'
    | failed _ _ hack' =>
      rw [hack] at hack'
      cases hack'
  refine ⟨n, .sent q, ?_, hwait.trans hflush.2, ?_, owes_kept hw hok hl hr hnext hret hflush.1 howes⟩
  · rw [act_log_quiet d inp hb, hnone, ended, List.append_nil]
    exact htrace
  · change (d.sync inp r.commit.busWrite).dataWriteAck = none
    rw [hb]
    exact load_ack d inp

/-- The answer is an error: the store leaves with the exception. -/
theorem trace_failed (hw : d.world.Holds g₀) (hl : d.Legal inp)
    (hr : d.world.core.cycle inp.cycle = some r) (h : d.Tells n p)
    {id : Nat} (hid : Fifo.customerGetFrontId d.world.core.rob
      (inp.cycle.early d.world.core).rob = some id)
    (hw' : (inp.cycle.early d.world.core).isWaitingAck = true)
    (hack : inp.cycle.commit.writeAck = some .error) (hb : r.commit.busWrite = none)
    (hq : r.commit.retireQueue = [(id, d.world.core.rob.buffer id)])
    (hex : r.commit.feedback.hasException = true)
    (hcsr : r.commit.new.csrFile = (((inp.cycle.early d.world.core).csrFile.writeSys csrMepc
      (d.world.core.rob.buffer id).pc).writeSys csrMtval
        (d.world.core.storeOf (d.world.core.rob.buffer id)).addr).writeSys csrMcause
          RiscvException.storeAmoAccessFault.toWord) :
    (d.act inp r).InOrder := by
  obtain ⟨htrace, hstage, hok, hlocated⟩ := h
  obtain ⟨-, hwait, -, -⟩ := cycle_stores hw hl.cycle hr
  obtain ⟨hearly, -⟩ := early_waits d.world.core inp.cycle
  have heff := cycle_storeEffect hw hr
  have hturns := htrace.turns_eq
  rw [hearly] at hw'
  obtain ⟨q, howes, ⟨-, hnone⟩ | ⟨b, rfl, hsome⟩⟩ := stage_waiting hstage hw'
  · rw [hl.writeAck, hnone] at hack
    cases hack
  rw [hl.writeAck, hsome] at hack
  cases hack
  obtain ⟨f, rest, hf, ha, rfl⟩ := howes
  have hfront := d.front hw inp hf hid
  subst hfront
  have hleft : d.world.leavings r.commit = [⟨some f.info,
      some (d.world.core.storeOf (d.world.core.rob.buffer f.info.robId.id)),
      some r.commit.new.csrFile⟩] := by
    rw [World.leavings, hq, List.mapIdx_cons, List.mapIdx_nil, hf, hex, if_pos ha.store]
    rfl
  have hflag : r.commit.new.isWaitingAck = false := by
    cases heff with
    | quiet hn => exact absurd ha (hn _ hid)
    | pushed _ _ _ _ _ _ _ _ _ _ _ _ hw'' => exact hw''
    | asked _ _ _ _ _ hw'' =>
      rw [hearly, hw'] at hw''
      cases hw''
    | waits _ _ _ hack' =>
      rw [hl.writeAck, hsome] at hack'
      cases hack'
    | answered _ _ _ _ _ _ _ hw'' => exact hw''
    | failed _ _ _ hw'' => exact hw''
  refine ⟨n + 1, .idle, ?_, hwait.trans hflag⟩
  rw [act_log_quiet d inp hb, hleft, hturns]
  refine htrace.done ⟨ha.device, rfl, rfl, f.info, rfl, _, rfl, ?_, ?_, ?_⟩
  · rw [hcsr, hlocated f (by rw [hf]; exact List.mem_cons_self ..)]
    rfl
  · rw [hcsr]
    rfl
  · rw [hcsr]
    rfl

/-- The answer has come: the store leaves, and what is behind it may. -/
theorem trace_answered (hw : d.world.Holds g₀) (hl : d.Legal inp)
    (hr : d.world.core.cycle inp.cycle = some r) (h : d.Tells n p)
    (hw' : (inp.cycle.early d.world.core).isWaitingAck = true)
    (hack : inp.cycle.commit.writeAck = some .none) (hb : r.commit.busWrite = none) :
    (d.act inp r).InOrder := by
  obtain ⟨htrace, hstage, hok, hlocated⟩ := h
  obtain ⟨-, hwait, -, -⟩ := cycle_stores hw hl.cycle hr
  obtain ⟨hearly, -⟩ := early_waits d.world.core inp.cycle
  have heff := cycle_storeEffect hw hr
  have hturns := htrace.turns_eq
  rw [hearly] at hw'
  obtain ⟨q, howes, ⟨-, hnone⟩ | ⟨b, rfl, hsome⟩⟩ := stage_waiting hstage hw'
  · rw [hl.writeAck, hnone] at hack
    cases hack
  rw [hl.writeAck, hsome] at hack
  cases hack
  obtain ⟨f, rest, hf, ha, rfl⟩ := howes
  cases heff with
  | quiet hn =>
    refine absurd ha (hn _ ?_)
    rw [hw.front (early_sameWindow d.world.core inp.cycle), hf]
    rfl
  | pushed _ _ _ _ _ _ _ hw'' =>
    rw [hearly, hw'] at hw''
    cases hw''
  | asked _ _ _ _ _ hw'' =>
    rw [hearly, hw'] at hw''
    cases hw''
  | waits _ _ _ hack' =>
    rw [hl.writeAck, hsome] at hack'
    cases hack'
  | failed _ _ hack' =>
    rw [hl.writeAck, hsome] at hack'
    cases hack'
  | answered id l hid hret hno _ _ hflag =>
    have hfront := d.front hw inp hf hid
    subst hfront
    obtain ⟨x, xs, hleft, hop, hstore, htrap, hplain⟩ :=
      leavings_cons (w := d.world) hret hno
    refine ⟨n + 1 + xs.length, .idle, ?_, hwait.trans hflag⟩
    rw [act_log_quiet d inp hb, hleft, hturns, ended, ← List.singleton_append,
      ← List.append_assoc]
    refine (htrace.done ⟨ha.device, ?_, ?_, f.info, rfl, htrap⟩).plain_list xs hplain
    · rw [hop, hf]
      rfl
    · rw [hstore, if_pos ha.store]

/-- **A cycle keeps the log in order.** -/
theorem trace_step (hw : d.world.Holds g₀) (hl : d.Legal inp)
    (hr : d.world.core.cycle inp.cycle = some r) (hnext : (d.world.act r).Holds g)
    (h : d.Tells n p) : (d.act inp r).InOrder := by
  cases cycle_deviceEffect hw hr with
  | silent hn hb => exact trace_silent hw hl hr h hn hb
  | sent id hid ha hw' hb hq => exact trace_sent hw hl hr hnext h hid ha hw' hb hq
  | waits hw' hack hb hq => exact trace_waits hw hl hr hnext h hw' hack hb hq
  | failed id hid hw' hack hb hq hex hcsr =>
    exact trace_failed hw hl hr h hid hw' hack hb hq hex hcsr
  | answered hw' hack hb => exact trace_answered hw hl hr h hw' hack hb

/-- **A cycle keeps the story straight.** -/
theorem tells_step (hd : DeviceReachable d) (h : d.Tells n p) (hl : d.Legal inp)
    (hr : d.world.core.cycle inp.cycle = some r) : ∃ n' p', (d.act inp r).Tells n' p' := by
  obtain ⟨g₀, hw⟩ := hd.world.holds
  obtain ⟨g, hnext, -⟩ := cycle_effect hw hl.cycle hr
  obtain ⟨n', p', htrace, hstage⟩ := trace_step hw hl hr hnext h
  refine ⟨n', p', htrace, hstage, storesOk_step hw h.stores hl.cycle hl.timely hr hnext, ?_⟩
  refine entries_step (P := fun info item => item.pc = info.pc) hw hl.cycle hr hnext ?_ ?_ h.located
  · intro info rev before after old new hsends
    exact (congrArg (·.pc) hsends).symm
  · intro f _ rev _ _ _ hpc
    exact hpc

theorem tells_reachable (h : DeviceReachable d) : ∃ n p, d.Tells n p := by
  induction h with
  | init => exact ⟨0, .idle, tells_init⟩
  | cycle inp r hd hl hr ih =>
    obtain ⟨n, p, htells⟩ := ih
    exact tells_step hd htells hl hr

/-! ## What the order is worth -/

/-- **Commit sends the store of the oldest instruction in flight.** -/
theorem sends_oldest (hw : d.world.Holds g) (hok : StoresOk d.world)
    (hr : d.world.core.cycle inp.cycle = some r) {write : Word × Word × Word}
    (hb : r.commit.busWrite = some write) : ∃ f rest, d.world.flight = f :: rest
      ∧ f.info.takesStoreBuffer = true ∧ write = (d.world.core.storeBuffer.itemAddr
        f.info.storeBufferId, d.world.core.storeBuffer.itemSize f.info.storeBufferId,
        (d.world.core.storeBuffer.ring.buffer f.info.storeBufferId).data) := by
  cases cycle_deviceEffect hw hr with
  | silent _ hn | waits _ _ hn | failed _ _ _ _ hn | answered _ _ hn =>
    rw [hb] at hn
    cases hn
  | sent id hid ha _ hs =>
    cases hf : d.world.flight with
    | nil =>
      rw [hw.front (early_sameWindow d.world.core inp.cycle), hf] at hid
      cases hid
    | cons f rest =>
      have hfront := d.front hw inp hf hid
      subst hfront
      have hmem : f ∈ d.world.flight := by rw [hf]; exact List.mem_cons_self ..
      refine ⟨f, rest, rfl, ha.takes hw hmem, ?_⟩
      rw [hb, Option.some.injEq] at hs
      rw [hs, Core.storeOf, hok.entry f hmem]
      rfl

/-- **Noncacheable stores go out once, at the front, and leave with their own answer.** -/
theorem orderly_reachable (h : DeviceReachable d) : d.Orderly := by
  obtain ⟨n, p, htells⟩ := tells_reachable h
  obtain ⟨g, hw⟩ := h.world.holds
  have htrace := htells.trace
  refine ⟨?_, ?_, ?_, fun inp r _ hr write hb => sends_oldest hw htells.stores hr hb⟩
  · intro l₁ k op e l₂ hs hdev
    rcases htrace.left_split hs with hplain | ⟨l, q, b, rfl, -, hop, hstore, op', hq, hb⟩
    · exact absurd hdev (hplain rfl e rfl)
    · cases b with
      | error =>
        obtain ⟨csr, hcsr, -⟩ := hb
        cases hcsr
      | none =>
        have hqe : q = ⟨op, e⟩ := by
          cases q
          cases hop
          cases hstore
          rfl
        subst hqe
        refine ⟨l, rfl, fun q' => ?_⟩
        have hs' : d.log = l ++ .sent k ⟨op, e⟩ :: (.answered k .none
            :: .left k ⟨op, some e, none⟩ :: l₂) := by
          rw [hs, List.append_assoc]
          rfl
        obtain ⟨hbefore, hafter⟩ := htrace.sent_once hs' q'
        exact ⟨hbefore, fun hm => hafter (List.mem_cons_of_mem _ (List.mem_cons_of_mem _ hm))⟩
  · intro l₁ k l₂ hs
    obtain ⟨l, q, hl, hafter⟩ := htrace.answered_split hs
    rcases hafter with ⟨rfl, rfl, rfl⟩ | ⟨c, l₃, rfl, -, hop, hstore, op, hq, csr, htrap, hcsr⟩
    · obtain ⟨-, -, f, rest, -, -, rfl⟩ := htells.stage
      exact ⟨l, f.info, _, hl, .inl rfl⟩
    · refine ⟨l, op, q.store, ?_, .inr ⟨csr, l₃, ?_, hcsr⟩⟩
      · rw [hl, ← hq]
      · cases c
        simp only at hop hstore htrap
        rw [hop, hstore, htrap, hq]
  · intro l₁ k q l₂ hs
    obtain ⟨hk, hafter⟩ := htrace.sent_split hs
    rcases hafter with ⟨rfl, rfl, rfl⟩ | ⟨b, l₃, rfl⟩
    · obtain ⟨-, -, f, rest, hf, ha, rfl⟩ := htells.stage
      exact ⟨ha.device, hk, .inl ⟨rfl, rfl, by rw [hf]; rfl⟩⟩
    · have hs' : d.log = (l₁ ++ [.sent k q]) ++ .answered k b :: l₃ := by
        rw [hs, List.append_assoc]
        rfl
      obtain ⟨l, q', hl, hnext⟩ := htrace.answered_split hs'
      obtain ⟨-, hq⟩ := List.append_inj' hl rfl
      cases hq
      rcases hnext with ⟨rfl, rfl, rfl⟩ | ⟨c, l₄, rfl, hdev, hop, hstore, -⟩
      · obtain ⟨-, -, f, rest, hf, ha, rfl⟩ := htells.stage
        exact ⟨ha.device, hk, .inl ⟨rfl, rfl, by rw [hf]; rfl⟩⟩
      · refine ⟨hdev, hk, .inr ⟨b, c.trap, l₄, ?_⟩⟩
        cases c
        simp only at hop hstore
        rw [hop, hstore]

/-! ## Two stores to the CLINT -/

/-- The input of a script, with the acknowledgement the bus shows. -/
def DeviceWorld.input (d : DeviceWorld) (inp : World → CycleInput) : CycleInput :=
  { inp d.world with commit := { (inp d.world).commit with writeAck := d.bus.dataWriteAck } }

/-- The world after a script in which the load unit rests. -/
def DeviceWorld.play : List (World → CycleInput) → DeviceWorld → Option DeviceWorld
  | [], d => some d
  | inp :: script, d => (d.world.core.cycle (d.input inp)).bind fun r =>
      play script (d.act { cycle := d.input inp } r)

/-- **A script of legal and timely inputs is a run.** -/
theorem DeviceReachable.play (script : List (World → CycleInput))
    (hlegal : ∀ inp ∈ script, ∀ w, (inp w).Legal w ∧ (inp w).Timely w) {d d' : DeviceWorld}
    (hd : DeviceReachable d) (h : d.play script = some d') : DeviceReachable d' := by
  induction script generalizing d with
  | nil =>
    cases h
    exact hd
  | cons inp script ih =>
    unfold DeviceWorld.play at h
    obtain ⟨r, hr, hrest⟩ := Option.bind_eq_some_iff.mp h
    obtain ⟨hl, ht⟩ := hlegal inp (List.mem_cons_self ..) d.world
    have hlegal' : d.Legal { cycle := d.input inp } :=
      ⟨⟨hl.decoded, hl.results, hl.bru, hl.sau, hl.sdu, hl.lu⟩, ⟨ht.results, ht.sau, ht.sdu⟩, rfl⟩
    exact ih (fun i hi => hlegal i (List.mem_cons_of_mem _ hi)) (hd.cycle _ r hlegal' hr) hrest

/-- What an event is about: its turn, the address of the store, the answer. -/
def DeviceEvent.about : DeviceEvent → Nat × Option Word × Option BusErrno
  | .sent n q => (n, some q.store.addr, none)
  | .answered n b => (n, none, some b)
  | .left n c => (n, c.store.map RetiredStoreBufferItem.addr, none)

/-- `sw x0, 0(x0)` twice, to `msip` and to an offset at which the CLINT has no register. -/
def storingTwice : List (World → CycleInput) :=
  [fun _ => fetchPacks [plainPack 0x80000000 0x00002023, plainPack 0x80000004 0x00002023],
    oldestStore 0x20000000 1, oldestDone, fun _ => {}, fun _ => {},
    oldestStore 0x20000008 1, oldestDone, fun _ => {}, fun _ => {}]

theorem orderly_storingTwice : ∃ d, DeviceWorld.init.play storingTwice = some d
    ∧ d.log.map DeviceEvent.about
      = [(0, some 0x20000000, none), (0, none, some .none), (0, some 0x20000000, none),
        (1, some 0x20000008, none), (1, none, some .error), (1, some 0x20000008, none)]
    ∧ d.Orderly := by
  obtain ⟨d, hd⟩ : ∃ d, DeviceWorld.init.play storingTwice = some d :=
    Option.isSome_iff_exists.mp (by decide +kernel)
  have hlog : (DeviceWorld.init.play storingTwice).map (fun d => d.log.map DeviceEvent.about)
      = some [(0, some 0x20000000, none), (0, none, some .none), (0, some 0x20000000, none),
        (1, some 0x20000008, none), (1, none, some .error), (1, some 0x20000008, none)] := by
    decide +kernel
  rw [hd, Option.map_some, Option.some.injEq] at hlog
  refine ⟨d, hd, hlog, orderly_reachable (DeviceReachable.play storingTwice ?_ .init hd)⟩
  intro inp hinp w
  simp only [storingTwice, List.mem_cons, List.not_mem_nil, or_false] at hinp
  rcases hinp with rfl | rfl | rfl | rfl | rfl | rfl | rfl | rfl | rfl
  · refine ⟨fetchPacks_legal ?_ w, { idle_timely w with results := by simp [fetchPacks] }⟩
    intro p hp
    rcases List.mem_cons.mp hp with rfl | hp
    · exact plainPack_ok ..
    · rw [List.mem_singleton.mp hp]
      exact plainPack_ok ..
  · exact oldestStore_ok ..
  · exact oldestDone_ok w
  · exact ⟨idle_legal w, idle_timely w⟩
  · exact ⟨idle_legal w, idle_timely w⟩
  · exact oldestStore_ok ..
  · exact oldestDone_ok w
  · exact ⟨idle_legal w, idle_timely w⟩
  · exact ⟨idle_legal w, idle_timely w⟩

end DreamCore
