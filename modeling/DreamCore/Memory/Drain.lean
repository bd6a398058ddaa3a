import DreamCore.Lib.Drain
import DreamCore.Memory.System

/-!
# The retired stores drain

The retired store buffer is the sender of a drain over the cacheable bus: it
keeps the store at its front until the acknowledgement is back. Seen from the
memory the front is then in one of three phases, and the array in which writes
wait for their latency holds at most that one store.

A store that the slave refuses is never answered and stays at the front for ever.
It changes nothing in the memory either, so that the sums still come out.
-/

namespace DreamCore

open Ring

variable {w : World} {g : Ghost} {inp : CycleInput} {r : CycleResult}

/-! ## What commit hands over -/

/-- **What a cycle's retirements do to the retired store buffer.** -/
inductive RetiredStoreBuffer.Handed (cur : RetiredStoreBuffer) :
    List RetiredStoreBufferItem → RetiredStoreBuffer → Prop where
  | nothing : cur.Handed [] cur
  | store (e : RetiredStoreBufferItem)
      (ring : Fifo retiredStoreBufferSize RetiredStoreBufferItem) :
      e.Sized → Fifo.push cur.ring cur.ring e = some ring →
      cur.Handed [e] { cur with ring := ring }

theorem Core.retiredStores_single {cur : Core} {id : Nat} {item : RobItem}
    {l : List (Nat × RobItem)} (hl : NoStore l) (hs : item.storeBufferIdValid = true) :
    cur.retiredStores ((id, item) :: l)
      = if isCacheable (cur.storeOf item).addr then [cur.storeOf item] else [] := by
  have hnone : l.filter (fun e => e.2.storeBufferIdValid) = [] := by
    rw [List.filter_eq_nil_iff]
    intro e he hv
    rw [hl e he] at hv
    cases hv
  unfold Core.retiredStores
  rw [List.filter_cons, if_pos hs, hnone, List.map_singleton, List.filter_singleton, cond_eq_ite]

/-- **What retires is what is handed over.** A store the bus has answered goes to a device, and
so is none of the retired cacheable stores. -/
theorem cycle_handed (hw : w.Holds g) (hok : StoresOk w) (h : w.core.cycle inp = some r) :
    w.core.retiredStoreBuffer.Handed (w.core.retiredStores r.commit.retired)
      r.commit.new.retiredStoreBuffer := by
  obtain ⟨hack, hrsb⟩ := early_waits w.core inp
  have hfront := hw.front (early_sameWindow w.core inp)
  cases cycle_storeEffect hw h with
  | quiet _ hs hno =>
    rw [hno.retiredStores, hs.retired, hrsb]
    exact .nothing
  | pushed id item l ring hret hno hv _ hc hsize hpush hnew _ _ =>
    rw [hret, Core.retiredStores_single hno hv, if_pos hc, hnew, hrsb]
    rw [hrsb] at hpush
    exact .store _ ring hsize hpush
  | asked _ _ _ hret _ _ _ hnew _ =>
    rw [hret, hnew, hrsb]
    exact .nothing
  | waits hret _ _ _ hs =>
    rw [hret, hs.retired, hrsb]
    exact .nothing
  | answered id l hid hret hno hwait _ _ hnew _ =>
    rw [hack] at hwait
    obtain ⟨f, rest, hf, ha⟩ := hok.waiting hwait
    rw [hid, hf, List.head?_cons, Option.map_some, Option.some.injEq] at hfront
    rw [← hfront] at ha
    rw [hret, Core.retiredStores_single hno ha.store, ha.device, if_neg Bool.false_ne_true, hnew,
      hrsb]
    exact .nothing
  | failed hret _ _ _ hnew _ =>
    rw [hret, hnew, hrsb]
    exact .nothing

/-! ## The retired store buffer in one cycle -/

namespace RetiredStoreBuffer

variable {cur new : RetiredStoreBuffer} {l : List RetiredStoreBufferItem} {a b : Nat} {ack : Bool}

/-- What has been handed over is behind what was there. -/
theorem Handed.window (h : cur.Handed l new) (hc : Fifo.Window cur.ring a b) :
    ∃ b', b ≤ b' ∧ Fifo.Window new.ring a b' ∧ new.isWaitingAck = cur.isWaitingAck
      ∧ slots retiredStoreBufferSize new.ring.buffer a b
        = slots retiredStoreBufferSize cur.ring.buffer a b
      ∧ slots retiredStoreBufferSize new.ring.buffer b b' = l ∧ ∀ e ∈ l, e.Sized := by
  cases h with
  | nothing => exact ⟨b, Nat.le_refl _, hc, rfl, rfl, slots_self _, by simp⟩
  | store e ring hs hp =>
    obtain ⟨hroom, hwin, hbuf⟩ := hc.push (by decide) hc.rptr (Nat.le_refl _) hc.size hp
    refine ⟨b + 1, Nat.le_succ b, hwin, rfl, ?_, ?_, ?_⟩
    · rw [hbuf, slots_update _ _ (Nat.le_refl b) hroom]
    · rw [hbuf, slots_succ_right _ (Nat.le_refl b), slots_self, Function.update_self]
      rfl
    · intro x hx
      rw [List.mem_singleton.mp hx]
      exact hs

/-- The front that the cycle can still see, once `a'` counters have been popped. -/
theorem front_seen {a' b' : Nat} (hc : Fifo.Window cur.ring a b) {ring : Fifo retiredStoreBufferSize
    RetiredStoreBufferItem} (hn : Fifo.Window ring a' b') (ha : a' ≤ b) (hb : b ≤ b') :
    (if Fifo.customerIsEmpty cur.ring ring then none else some (cur.ring.buffer ring.rptr.id))
      = (slots retiredStoreBufferSize cur.ring.buffer a' b).head? := by
  have hsize := hn.size
  have hempty : Fifo.customerIsEmpty cur.ring ring = true ↔ a' = b :=
    Fifo.customerIsEmpty_iff (by decide) hn.rptr hc.wptr ha (by omega)
  by_cases he : a' = b
  · rw [if_pos (hempty.mpr he), he, slots_self]
    rfl
  · rw [if_neg (fun h => he (hempty.mp h)), slots_succ_left _ (by omega), hn.rptr, Ptr.fold_id]
    rfl

/-- The buffer once an acknowledged store is off. -/
def popped (cur new : RetiredStoreBuffer) (ack : Bool) : RetiredStoreBuffer :=
  if new.isWaitingAck && ack then
    { ring := Fifo.drop cur.ring new.ring, isWaitingAck := false }
  else new

theorem run_eq : retiredStoreBufferRun cur new ack
    = if !(popped cur new ack).isWaitingAck
        && !Fifo.customerIsEmpty cur.ring (popped cur new ack).ring then
        { popped cur new ack with isWaitingAck := true }
      else popped cur new ack := rfl

theorem write_eq : retiredStoreBufferWrite cur new ack
    = if !(popped cur new ack).isWaitingAck
        && !Fifo.customerIsEmpty cur.ring (popped cur new ack).ring then
        some (cur.ring.buffer (popped cur new ack).ring.rptr.id)
      else none := rfl

/-- What it holds then, oldest first, without what this cycle has handed over. -/
def left (cur : RetiredStoreBuffer) (ack : Bool) : List RetiredStoreBufferItem :=
  if cur.isWaitingAck && ack then cur.ring.contents.tail else cur.ring.contents

/-- **What `run` does**: the acknowledged store is off, and where no answer is outstanding the
front of what the cycle began with is sent. -/
theorem run_spec (ack : Bool) (hc : Fifo.Window cur.ring a b) (hwait : cur.isWaitingAck = true → a < b)
    (h : cur.Handed l new) :
    (∃ a' b', Fifo.Window (retiredStoreBufferRun cur new ack).ring a' b')
      ∧ (retiredStoreBufferRun cur new ack).ring.contents = cur.left ack ++ l
      ∧ retiredStoreBufferWrite cur new ack
        = (if cur.isWaitingAck && !ack then none else (cur.left ack).head?)
      ∧ (retiredStoreBufferRun cur new ack).isWaitingAck
        = ((cur.isWaitingAck && !ack) || (retiredStoreBufferWrite cur new ack).isSome) := by
  obtain ⟨b', hb, hn, hw, hold, hl, -⟩ := h.window hc
  have hcur : cur.ring.contents = slots retiredStoreBufferSize cur.ring.buffer a b :=
    hc.contents_eq (by decide)
  -- `a'` counts what is off, and the cycle still sees what it began with from there on
  have hpop : ∃ a', Fifo.Window (popped cur new ack).ring a' b' ∧ a ≤ a' ∧ a' ≤ b
      ∧ (popped cur new ack).ring.buffer = new.ring.buffer
      ∧ (popped cur new ack).isWaitingAck = (cur.isWaitingAck && !ack)
      ∧ cur.left ack = slots retiredStoreBufferSize cur.ring.buffer a' b := by
    unfold popped left
    rw [hw, hcur]
    by_cases hp : (cur.isWaitingAck && ack) = true
    · simp only [if_pos hp]
      obtain ⟨hp₁, hp₂⟩ := Bool.and_eq_true_iff.mp hp
      have hlt := hwait hp₁
      have hne : Fifo.customerIsEmpty cur.ring new.ring = false := by
        rw [Bool.eq_false_iff]
        intro he
        rw [Fifo.customerIsEmpty_iff (by decide) hn.rptr hc.wptr hc.le hc.size] at he
        omega
      have hsize := hn.size
      rw [slots_succ_left _ hlt, List.tail_cons]
      refine ⟨a + 1, ⟨?_, Fifo.drop_wptr.trans hn.wptr, by omega, by omega⟩, Nat.le_succ a, hlt,
        Fifo.drop_buffer, ?_, rfl⟩
      · rw [Fifo.drop_rptr hne, hn.rptr, Ptr.next_fold (by decide)]
      · rw [hp₂, Bool.not_true, Bool.and_false]
    · simp only [if_neg hp]
      refine ⟨a, hn, Nat.le_refl _, hc.le, trivial, ?_, rfl⟩
      rw [hw]
      cases hwa : cur.isWaitingAck with
      | false => rfl
      | true =>
        rw [hwa, Bool.true_and, Bool.not_eq_true] at hp
        rw [hp]
        rfl
  obtain ⟨a', hwin, ha, ha', hbuf, hwaits, hleft⟩ := hpop
  have hwrite : retiredStoreBufferWrite cur new ack
      = if cur.isWaitingAck && !ack then none else (cur.left ack).head? := by
    rw [write_eq, hleft, ← front_seen hc hwin ha' hb, ← hwaits]
    cases (popped cur new ack).isWaitingAck with
    | true => rfl
    | false =>
      cases Fifo.customerIsEmpty cur.ring (popped cur new ack).ring with
      | true => rfl
      | false => rfl
  have hring : (retiredStoreBufferRun cur new ack).ring = (popped cur new ack).ring := by
    rw [run_eq]
    split
    · rfl
    · rfl
  have hflag : (retiredStoreBufferRun cur new ack).isWaitingAck
      = ((popped cur new ack).isWaitingAck || (retiredStoreBufferWrite cur new ack).isSome) := by
    rw [run_eq, write_eq]
    split
    · rw [Option.isSome_some, Bool.or_true]
    · rw [Option.isSome_none, Bool.or_false]
  rw [hring, hflag]
  refine ⟨⟨a', b', hwin⟩, ?_, hwrite, congrArg (· || _) hwaits⟩
  rw [hwin.contents_eq (by decide), hbuf, ← slots_append _ ha' hb, hl, hleft]
  -- the slots from `a'` on are among those that were there
  refine congrArg (· ++ l) (slots_congr fun k h₁ h₂ => ?_)
  have hk : (slots retiredStoreBufferSize new.ring.buffer a b)[k - a]?
      = (slots retiredStoreBufferSize cur.ring.buffer a b)[k - a]? := by rw [hold]
  rw [slots_getElem? _ (by omega), slots_getElem? _ (by omega), Option.some.injEq,
    show a + (k - a) = k by omega] at hk
  exact hk

end RetiredStoreBuffer

/-! ## The array of writes -/

namespace MemorySlave

variable {α β : Type} {latency n : Nat} {pipe : List (Option β)} {x : β}

/-- No request waits. -/
def Empty (latency : Nat) (pipe : List (Option β)) : Prop :=
  pipe = List.replicate (latency + 1) none

/-- Exactly one request waits, for `n` more cycles. -/
def Lone (latency : Nat) (x : β) (n : Nat) (pipe : List (Option β)) : Prop :=
  ∃ i, i + n = latency ∧ pipe = List.replicate i none ++ some x :: List.replicate n none

theorem Empty.due (h : Empty latency pipe) : due pipe = none := by
  rw [h, MemorySlave.due, List.getLast?_replicate]
  rfl

theorem Empty.shift (h : Empty latency pipe) : Empty latency (shift pipe) := by
  rw [h, MemorySlave.shift, List.dropLast_replicate]
  rfl

/-- A request is given the whole latency to wait. -/
theorem Empty.request (h : Empty latency pipe) (x : β) :
    Lone latency x latency (some x :: pipe.tail) := by
  rw [h]
  exact ⟨0, Nat.zero_add _, rfl⟩

theorem Lone.due (h : Lone latency x n pipe) :
    due pipe = if n = 0 then some x else none := by
  obtain ⟨i, -, rfl⟩ := h
  cases n with
  | zero =>
    rw [MemorySlave.due, List.replicate_zero, List.getLast?_concat]
    rfl
  | succ n =>
    rw [MemorySlave.due, List.getLast?_append, List.getLast?_cons, List.getLast?_replicate]
    rfl

theorem Lone.shift_zero (h : Lone latency x 0 pipe) : Empty latency (shift pipe) := by
  obtain ⟨i, hi, rfl⟩ := h
  rw [Empty, MemorySlave.shift, List.replicate_zero, List.dropLast_concat, ← hi]
  rfl

theorem Lone.shift_succ (h : Lone latency x (n + 1) pipe) : Lone latency x n (shift pipe) := by
  obtain ⟨i, hi, rfl⟩ := h
  refine ⟨i + 1, by omega, ?_⟩
  rw [MemorySlave.shift, List.dropLast_append_of_ne_nil (by simp),
    List.dropLast_cons_of_ne_nil (by simp), List.dropLast_replicate]
  rfl

theorem Empty.pending {s : MemorySlave α} (h : Empty latency s.writes) : s.pending = [] := by
  rw [MemorySlave.pending, h, List.reverse_replicate, List.filterMap_replicate_of_none]
  rfl

theorem Lone.pending {s : MemorySlave α} {x : MemWrite} (h : Lone latency x n s.writes) :
    s.pending = [x] := by
  obtain ⟨i, -, hw⟩ := h
  rw [MemorySlave.pending, hw]
  simp

end MemorySlave

/-- The store, as the slave is handed it. -/
def RetiredStoreBufferItem.toWrite (e : RetiredStoreBufferItem) : MemWrite :=
  ⟨e.addr.toNat - memoryBase.toNat, e.size.toNat, e.data⟩

theorem Mem.store_lands {m : Mem} {e : RetiredStoreBufferItem} (h : e.Lands) :
    m.store e = e.toWrite.apply m := if_pos h

theorem Mem.store_not_lands {m : Mem} {e : RetiredStoreBufferItem} (h : ¬ e.Lands) :
    m.store e = m := if_neg h

/-- **What becomes of a store on the bus.** -/
theorem cacheableWrite_eq {α : Type} {e : RetiredStoreBufferItem} (hs : e.Sized)
    (slave : MemorySlave α) (bus : DataBus α) :
    cacheableWrite slave bus e.addr e.size.toNat e.data
      = if e.Lands then (slave.write e.toWrite, bus)
        else if memorySlave.maps e.addr false then (slave, bus)
        else (slave, bus.setDataWriteAck .error) := by
  unfold cacheableWrite
  by_cases hm : memorySlave.maps e.addr false = true
  · rw [if_pos hm, if_pos hm]
    by_cases hl : e.Lands
    · rw [if_pos hl, if_pos ((lands_iff hs hm).mpr hl)]
      obtain ⟨hlo, -⟩ := (memorySlave_maps_data e.addr).mp hm
      rw [show (memorySlave.offset e.addr).toNat = e.addr.toNat - memoryBase.toNat from
        BitVec.toNat_sub_of_le hlo]
      rfl
    · rw [if_neg hl, if_neg fun hc => hl ((lands_iff hs hm).mp hc)]
  · rw [if_neg hm, if_neg hm, if_neg (not_lands_of_unmapped hs (Bool.eq_false_iff.mpr hm))]

/-- The load unit leaves the writing side alone. -/
theorem MemorySystem.load_writes (sys : MemorySystem) (use : LoadUse) :
    (sys.load use).1.mem = sys.slave.mem ∧ (sys.load use).1.writes = sys.slave.writes
      ∧ (sys.load use).2.dataWriteAck = none := by
  unfold MemorySystem.load cacheableRead
  dsimp only
  split
  · split
    · split
      · exact ⟨rfl, rfl, by split <;> simp⟩
      · exact ⟨rfl, rfl, by split <;> simp⟩
    · exact ⟨rfl, rfl, by split <;> simp⟩
  · exact ⟨rfl, rfl, by split <;> simp⟩

/-- **What a cycle does to the writing side**, before the retired store buffer's turn. -/
theorem MemorySlave.runPost_writes {α : Type} (s : MemorySlave α) (bus : DataBus α) :
    (s.runPost bus).1.mem = ((due s.writes).elim s.mem fun w => w.apply s.mem)
      ∧ (s.runPost bus).1.writes = shift s.writes
      ∧ (s.runPost bus).2.dataWriteAck
        = ((due s.writes).elim bus.dataWriteAck fun _ => some .none) := by
  unfold MemorySlave.runPost
  dsimp only
  cases due s.writes with
  | some w => exact ⟨rfl, rfl, rfl⟩
  | none =>
    refine ⟨rfl, rfl, ?_⟩
    dsimp only [Option.elim_none]
    cases due s.reads with
    | some value => exact DataBus.setDataValue_dataWriteAck ..
    | none => rfl

/-! ## The invariant -/

/-- **Where the front of the queue stands**, told by the array of writes, the acknowledgement and
the flag of the buffer. -/
inductive Standing (latency : Nat) (writes : List (Option MemWrite)) (ack : Option BusErrno)
    (waiting : Bool) (q : List RetiredStoreBufferItem) : Drain.Phase → Prop where
  | idle : MemorySlave.Empty latency writes → ack = none → waiting = false →
      Standing latency writes ack waiting q .idle
  | underWay (x : RetiredStoreBufferItem) (rest : List RetiredStoreBufferItem) (n : Nat) :
      q = x :: rest → x.Lands → MemorySlave.Lone latency x.toWrite n writes → ack = none →
      waiting = true → Standing latency writes ack waiting q .sent
  /-- The slave has refused the front, and nobody will tell. -/
  | refused (x : RetiredStoreBufferItem) (rest : List RetiredStoreBufferItem) :
      q = x :: rest → ¬ x.Lands → MemorySlave.Empty latency writes → ack = none →
      waiting = true → Standing latency writes ack waiting q .sent
  | performed (x : RetiredStoreBufferItem) (rest : List RetiredStoreBufferItem) :
      q = x :: rest → MemorySlave.Empty latency writes → ack.isSome = true →
      waiting = true → Standing latency writes ack waiting q .performed

/-- **The memory behind the core is a drain.** -/
structure MemoryWorld.Draining (mem : Mem) (latency : Nat) (d : MemoryWorld) (a b : Nat)
    (phase : Drain.Phase) : Prop where
  window : Fifo.Window d.world.core.retiredStoreBuffer.ring a b
  sized : ∀ e ∈ d.world.core.retiredStoreBuffer.ring.contents, e.Sized
  reaches : Drain.Reaches Mem.store mem d.stored
    ⟨d.world.core.retiredStoreBuffer.ring.contents, phase, d.system.slave.mem⟩
  standing : Standing latency d.system.slave.writes d.system.bus.dataWriteAck
    d.world.core.retiredStoreBuffer.isWaitingAck d.world.core.retiredStoreBuffer.ring.contents phase

theorem draining_init (mem : Mem) (latency : Nat) :
    (MemoryWorld.init mem latency).Draining mem latency 0 0 .idle := by
  have hwindow : Fifo.Window (MemoryWorld.init mem latency).world.core.retiredStoreBuffer.ring 0 0 :=
    ⟨(Ptr.fold_zero _).symm, (Ptr.fold_zero _).symm, Nat.le_refl _, Nat.zero_le _⟩
  have hnil : (MemoryWorld.init mem latency).world.core.retiredStoreBuffer.ring.contents = [] := by
    rw [hwindow.contents_eq (by decide), slots_self]
  refine ⟨hwindow, ?_, ?_, .idle rfl rfl rfl⟩
  · rw [hnil]
    intro e he
    cases he
  · rw [hnil]
    exact .start

/-- **The idle buffer sends the front of what it holds.** `l` is what the cycle hands over, which
the buffer does not see yet. -/
theorem standing_send {mem : Mem} {latency : Nat} {stored q l : List RetiredStoreBufferItem}
    {slave : MemorySlave Word} {bus : DataBus Word}
    (hr : Drain.Reaches Mem.store mem stored ⟨q ++ l, .idle, slave.mem⟩)
    (hs : ∀ e ∈ q, e.Sized) (he : MemorySlave.Empty latency slave.writes)
    (hack : bus.dataWriteAck = none) :
    let sent := match q.head? with
      | some item => cacheableWrite slave bus item.addr item.size.toNat item.data
      | none => (slave, bus)
    ∃ phase, Drain.Reaches Mem.store mem stored ⟨q ++ l, phase, sent.1.mem⟩
      ∧ Standing latency sent.1.writes sent.2.dataWriteAck q.head?.isSome (q ++ l) phase := by
  cases q with
  | nil => exact ⟨.idle, hr, .idle he hack rfl⟩
  | cons x rest =>
    change ∃ phase, Drain.Reaches Mem.store mem stored ⟨x :: rest ++ l, phase,
        (cacheableWrite slave bus x.addr x.size.toNat x.data).1.mem⟩
      ∧ Standing latency (cacheableWrite slave bus x.addr x.size.toNat x.data).1.writes
        (cacheableWrite slave bus x.addr x.size.toNat x.data).2.dataWriteAck true
        (x :: rest ++ l) phase
    rw [cacheableWrite_eq (hs x (List.mem_cons_self ..))]
    have hsent : Drain.Reaches Mem.store mem stored ⟨x :: (rest ++ l), .sent, slave.mem⟩ :=
      .send hr
    by_cases hl : x.Lands
    · rw [if_pos hl]
      exact ⟨.sent, hsent, .underWay x (rest ++ l) latency rfl hl (he.request _) hack rfl⟩
    · rw [if_neg hl]
      by_cases hm : memorySlave.maps x.addr false = true
      · rw [if_pos hm]
        exact ⟨.sent, hsent, .refused x (rest ++ l) rfl hl he hack rfl⟩
      · rw [if_neg hm]
        -- the bus answers at once, and the memory is as a store outside it leaves it
        have hp := Drain.Reaches.perform hsent
        rw [Mem.store_not_lands hl] at hp
        exact ⟨.performed, hp, .performed x (rest ++ l) rfl he rfl rfl⟩

/-- The cycle of the system, its last turn set apart. -/
theorem MemorySystem.act_eq (sys : MemorySystem) (use : LoadUse)
    (write : Option RetiredStoreBufferItem) :
    let post := (sys.load use).1.runPost (sys.load use).2
    let sent := match write with
      | some item => cacheableWrite post.1 post.2 item.addr item.size.toNat item.data
      | none => post
    sys.act use write = ⟨sent.1, sent.2⟩ := by
  cases write with
  | none => rfl
  | some item => rfl

/-- **A cycle of the memory and the retired store buffer**, whatever the load unit does. -/
theorem standing_cycle {mem : Mem} {latency : Nat} {stored q : List RetiredStoreBufferItem}
    {sys : MemorySystem} {waiting : Bool} {phase : Drain.Phase} (use : LoadUse)
    (l : List RetiredStoreBufferItem) (hsized : ∀ e ∈ q, e.Sized)
    (hr : Drain.Reaches Mem.store mem stored ⟨q, phase, sys.slave.mem⟩)
    (hs : Standing latency sys.slave.writes sys.bus.dataWriteAck waiting q phase) :
    let ack := sys.bus.dataWriteAck.isSome
    let left := if waiting && ack then q.tail else q
    let write := if waiting && !ack then none else left.head?
    ∃ phase', Drain.Reaches Mem.store mem (stored ++ l)
        ⟨left ++ l, phase', (sys.act use write).slave.mem⟩
      ∧ Standing latency (sys.act use write).slave.writes (sys.act use write).bus.dataWriteAck
        ((waiting && !ack) || write.isSome) (left ++ l) phase' := by
  have hpush := hr.push_list l
  obtain ⟨hmem, hwrites, hack⟩ := sys.load_writes use
  obtain ⟨hmem', hwrites', hack'⟩ := (sys.load use).1.runPost_writes (sys.load use).2
  rw [hwrites, hmem] at hmem'
  rw [hwrites] at hwrites' hack'
  rw [hack] at hack'
  intro ack left write
  rw [sys.act_eq use write]
  cases hs with
  | idle he hnone hw =>
    have hleft : left = q := by simp only [left, hw, Bool.false_and, Bool.false_eq_true, if_false]
    have hwrite : write = q.head? := by
      simp only [write, hleft, hw, Bool.false_and, Bool.false_eq_true, if_false]
    rw [he.due] at hmem' hack'
    rw [hleft, hwrite, hw]
    refine standing_send ?_ hsized (hwrites' ▸ he.shift) hack'
    rw [hmem']
    exact hpush
  | underWay x rest n hq hl hlone hnone hw =>
    have hwrite : write = none := by simp [write, ack, hw, hnone]
    have hleft : left = q := by simp [left, ack, hnone]
    have hack₀ : ack = false := by simp [ack, hnone]
    rw [hwrite, hleft, hw, hack₀, hq]
    rw [hq] at hpush
    rw [hlone.due] at hmem' hack'
    cases n with
    | zero =>
      -- the latency is over: the memory performs it and answers
      rw [if_pos rfl, Option.elim_some] at hmem' hack'
      refine ⟨.performed, ?_, .performed x (rest ++ l) rfl (hwrites' ▸ hlone.shift_zero) ?_ rfl⟩
      · have hp := Drain.Reaches.perform hpush
        rw [Mem.store_lands hl] at hp
        rw [← hmem'] at hp
        exact hp
      · exact congrArg Option.isSome hack'
    | succ n =>
      rw [if_neg (Nat.succ_ne_zero n)] at hmem' hack'
      exact ⟨.sent, hmem' ▸ hpush,
        .underWay x (rest ++ l) n rfl hl (hwrites' ▸ hlone.shift_succ) hack' rfl⟩
  | refused x rest hq hl he hnone hw =>
    have hwrite : write = none := by simp [write, ack, hw, hnone]
    have hleft : left = q := by simp [left, ack, hnone]
    have hack₀ : ack = false := by simp [ack, hnone]
    rw [hwrite, hleft, hw, hack₀, hq]
    rw [hq] at hpush
    rw [he.due] at hmem' hack'
    exact ⟨.sent, hmem' ▸ hpush, .refused x (rest ++ l) rfl hl (hwrites' ▸ he.shift) hack' rfl⟩
  | performed x rest hq he hsome hw =>
    have hack₀ : ack = true := hsome
    have hleft : left = rest := by simp [left, hack₀, hw, hq]
    have hwrite : write = rest.head? := by simp [write, hack₀, hleft]
    rw [hleft, hwrite, hw, hack₀]
    rw [hq] at hpush hsized
    rw [he.due] at hmem' hack'
    refine standing_send ?_ (fun e he => hsized e (List.mem_cons_of_mem _ he))
      (hwrites' ▸ he.shift) hack'
    rw [hmem']
    exact .pop hpush

/-- **The buffer after a cycle**: what was there, but for an acknowledged front, and behind it
what has retired. -/
theorem MemoryWorld.Draining.buffer {mem : Mem} {latency : Nat} {d : MemoryWorld}
    {inp : MemoryWorld.Input} {a b : Nat} {phase : Drain.Phase}
    (h : d.Draining mem latency a b phase) (hd : MemoryReachable mem latency d)
    (hl : d.Legal inp) (hr : d.world.core.cycle inp.cycle = some r) :
    let cur := d.world.core.retiredStoreBuffer
    let next := (d.act inp r).world.core.retiredStoreBuffer
    let write := retiredStoreBufferWrite cur r.rename.new.retiredStoreBuffer inp.cycle.drainAck
    (∃ a' b', Fifo.Window next.ring a' b')
      ∧ next.ring.contents
        = cur.left inp.cycle.drainAck ++ d.world.core.retiredStores r.commit.retired
      ∧ write = (if cur.isWaitingAck && !inp.cycle.drainAck then none
          else (cur.left inp.cycle.drainAck).head?)
      ∧ next.isWaitingAck = ((cur.isWaitingAck && !inp.cycle.drainAck) || write.isSome)
      ∧ ∀ e ∈ d.world.core.retiredStores r.commit.retired, e.Sized := by
  obtain ⟨g, hg⟩ := hd.world.holds
  have hhanded := cycle_handed hg (storesOk_reachable hd) hr
  obtain ⟨hkept, -⟩ := cycle_stores hg hl.cycle hr
  rw [← hkept] at hhanded
  have hwait : d.world.core.retiredStoreBuffer.isWaitingAck = true → a < b := by
    intro hw
    have hne : d.world.core.retiredStoreBuffer.ring.contents ≠ [] := by
      cases h.standing with
      | idle _ _ hf =>
        rw [hf] at hw
        cases hw
      | underWay x rest n hq _ _ _ _ => simp [hq]
      | refused x rest hq _ _ _ _ => simp [hq]
      | performed x rest hq _ _ _ => simp [hq]
    by_contra hge
    have hle := h.window.le
    rw [h.window.contents_eq (by decide), show b = a by omega, slots_self] at hne
    exact hne rfl
  obtain ⟨hwin', hcont, hwrite, hflag⟩ :=
    RetiredStoreBuffer.run_spec inp.cycle.drainAck h.window hwait hhanded
  obtain ⟨_, -, -, -, -, -, hsized⟩ := hhanded.window h.window
  have hnext : (d.act inp r).world.core.retiredStoreBuffer = retiredStoreBufferRun
      d.world.core.retiredStoreBuffer r.rename.new.retiredStoreBuffer inp.cycle.drainAck := by
    change r.next.retiredStoreBuffer = _
    rw [(Core.cycle_eq_some hr).next]
  intro cur next write
  rw [show next = _ from hnext]
  exact ⟨hwin', hcont, hwrite, hflag, hsized⟩

/-- **A cycle keeps the drain.** -/
theorem draining_step {mem : Mem} {latency : Nat} {d : MemoryWorld} {inp : MemoryWorld.Input}
    (hd : MemoryReachable mem latency d) (hl : d.Legal inp)
    (hr : d.world.core.cycle inp.cycle = some r) {a b : Nat} {phase : Drain.Phase}
    (h : d.Draining mem latency a b phase) :
    ∃ a' b' phase', (d.act inp r).Draining mem latency a' b' phase' := by
  obtain ⟨⟨a', b', hwin'⟩, hcont, hwrite, hflag, hsizedl⟩ := h.buffer hd hl hr
  obtain ⟨-, hsized, hreach, hstand⟩ := h
  obtain ⟨phase', hreach', hstand'⟩ := standing_cycle inp.use
    (d.world.core.retiredStores r.commit.retired) hsized hreach hstand
  rw [← hl.drainAck] at hreach' hstand'
  change retiredStoreBufferWrite _ _ _ = if _ then none else List.head? (if _ then _ else _)
    at hwrite
  rw [← hwrite] at hreach' hstand'
  refine ⟨a', b', phase', hwin', ?_, ?_, ?_⟩
  · rw [hcont]
    intro e he
    rcases List.mem_append.mp he with he | he
    · refine hsized e ?_
      unfold RetiredStoreBuffer.left at he
      split at he
      · exact List.mem_of_mem_tail he
      · exact he
    · exact hsizedl e he
  · rw [hcont]
    exact hreach'
  · rw [hcont, hflag]
    exact hstand'

/-- **Every reachable world drains.** -/
theorem draining_reachable {mem : Mem} {latency : Nat} {d : MemoryWorld}
    (h : MemoryReachable mem latency d) : ∃ a b phase, d.Draining mem latency a b phase := by
  induction h with
  | init => exact ⟨0, 0, .idle, draining_init mem latency⟩
  | cycle inp r hd hl hr ih =>
    obtain ⟨a, b, phase, hdrain⟩ := ih
    exact draining_step hd hl hr hdrain

/-- **The queue in a cycle**: nothing joins it but what retires. -/
theorem MemoryReachable.queue_next {mem : Mem} {latency : Nat} {d : MemoryWorld}
    {inp : MemoryWorld.Input} (h : MemoryReachable mem latency d) (hl : d.Legal inp)
    (hr : d.world.core.cycle inp.cycle = some r) :
    ∃ left, left.length ≤ d.world.core.retiredStoreBuffer.ring.contents.length
      ∧ (d.act inp r).world.core.retiredStoreBuffer.ring.contents
        = left ++ d.world.core.retiredStores r.commit.retired := by
  obtain ⟨a, b, phase, hdrain⟩ := draining_reachable h
  obtain ⟨-, hcont, -⟩ := hdrain.buffer h hl hr
  refine ⟨_, ?_, hcont⟩
  unfold RetiredStoreBuffer.left
  split
  · simp
  · exact Nat.le_refl _

/-- **What the customer finds empty is empty.** -/
theorem MemoryReachable.queue_empty {mem : Mem} {latency : Nat} {d : MemoryWorld}
    {inp : MemoryWorld.Input} (h : MemoryReachable mem latency d) (hl : d.Legal inp)
    (hr : d.world.core.cycle inp.cycle = some r)
    (he : Fifo.customerIsEmpty d.world.core.retiredStoreBuffer.ring
      r.rename.new.retiredStoreBuffer.ring = true) :
    d.world.core.retiredStoreBuffer.ring.contents = [] := by
  obtain ⟨a, b, phase, hwin, -⟩ := draining_reachable h
  obtain ⟨g, hg⟩ := h.world.holds
  have hhanded := cycle_handed hg (storesOk_reachable h) hr
  rw [← (cycle_stores hg hl.cycle hr).1] at hhanded
  obtain ⟨b', -, hnew, -⟩ := hhanded.window hwin
  rw [Fifo.customerIsEmpty_iff (by decide) hnew.rptr hwin.wptr hwin.le hwin.size] at he
  rw [hwin.contents_eq (by decide), he, slots_self]

/-! ## What the memory holds -/

/-- **The retired stores are where they belong**: what is still queued, on top of what the memory
has accepted, on top of what it holds, makes up the retired stores done once each in program
order; and what it holds alone is made up by the first few of them. -/
structure MemoryWorld.Drained (mem : Mem) (d : MemoryWorld) : Prop where
  exact : d.world.core.retiredStoreBuffer.ring.contents.foldl Mem.store
      (d.system.slave.pending.foldl (fun m w => w.apply m) d.system.slave.mem)
    = d.stored.foldl Mem.store mem
  behind : ∃ n ≤ d.stored.length, d.system.slave.mem = (d.stored.take n).foldl Mem.store mem

/-- **Retired stores drain exactly once and in order.** -/
theorem drained_reachable {mem : Mem} {latency : Nat} {d : MemoryWorld}
    (h : MemoryReachable mem latency d) : d.Drained mem := by
  obtain ⟨a, b, phase, -, -, hreach, hstand⟩ := draining_reachable h
  obtain ⟨n, hn, -, hmem⟩ := hreach.store_prefix
  refine ⟨?_, n, hn, hmem⟩
  cases hstand with
  | idle he _ _ =>
    rw [he.pending]
    exact hreach.queue_foldl Mem.store_store
  | underWay x rest n hq hl hlone _ _ =>
    rw [hlone.pending, List.foldl_cons, List.foldl_nil, ← Mem.store_lands hl]
    exact hreach.sent_foldl Mem.store_store hq
  | refused x rest _ _ he _ _ =>
    rw [he.pending]
    exact hreach.queue_foldl Mem.store_store
  | performed x rest _ he _ _ =>
    rw [he.pending]
    exact hreach.queue_foldl Mem.store_store

/-- **What has left the queue is in the memory.** -/
theorem MemoryReachable.since {mem : Mem} {latency : Nat} {d : MemoryWorld}
    (h : MemoryReachable mem latency d) {n : Nat}
    (hn : n + d.world.core.retiredStoreBuffer.ring.contents.length ≤ d.stored.length) :
    Drain.Since Mem.store mem d.stored n d.system.slave.mem := by
  obtain ⟨a, b, phase, -, -, hreach, -⟩ := draining_reachable h
  exact hreach.since hn

/-! ## A store on its way -/

/-- The world after a script in which the load unit rests. -/
def MemoryWorld.play : List (World → CycleInput) → MemoryWorld → Option MemoryWorld
  | [], d => some d
  | inp :: script, d =>
      let cycle := { inp d.world with drainAck := d.system.bus.dataWriteAck.isSome }
      (d.world.core.cycle cycle).bind fun r => play script (d.act { cycle := cycle } r)

/-- **A script of legal and timely inputs is a run.** -/
theorem MemoryReachable.play {mem : Mem} {latency : Nat} (script : List (World → CycleInput))
    (hlegal : ∀ inp ∈ script, ∀ w, (inp w).Legal w ∧ (inp w).Timely w) {d d' : MemoryWorld}
    (hd : MemoryReachable mem latency d) (h : d.play script = some d') :
    MemoryReachable mem latency d' := by
  induction script generalizing d with
  | nil =>
    cases h
    exact hd
  | cons inp script ih =>
    unfold MemoryWorld.play at h
    obtain ⟨r, hr, hrest⟩ := Option.bind_eq_some_iff.mp h
    obtain ⟨hl, ht⟩ := hlegal inp (List.mem_cons_self ..) d.world
    have hlegal' : d.Legal
        { cycle := { inp d.world with drainAck := d.system.bus.dataWriteAck.isSome } } :=
      ⟨⟨hl.decoded, hl.results, hl.bru, hl.sau, hl.sdu, hl.lu⟩,
        ⟨ht.results, ht.sau, ht.sdu⟩, rfl⟩
    exact ih (fun i hi => hlegal i (List.mem_cons_of_mem _ hi))
      (MemoryReachable.cycle _ r hd hlegal' hr) hrest

/-- Both parts of the oldest instruction, if it is a store that has not finished. -/
def oldestStore (addr data : Word) (w : World) : CycleInput :=
  match w.flight with
  | [] => {}
  | f :: _ =>
      if f.info.takesStoreBuffer && f.info.opUnit.isLsu
          && !(w.core.rob.buffer f.info.robId.id).finish then
        { sau := some { f.info.operands with
            opUnit := .sau, subOp := .sau .staw, imm := 0, src1Value := addr }
          sdu := some { f.info.operands with
            opUnit := .sdu, subOp := .sdu .sw, src2Value := data } }
      else {}

/-- The last result of the oldest instruction, if it has not finished. -/
def oldestDone (w : World) : CycleInput :=
  match w.flight with
  | [] => {}
  | f :: _ =>
      if !(w.core.rob.buffer f.info.robId.id).finish then
        { commit := { executeCommitPort := [{ ExecuteWbPack.copy f.info.operands with
            lastUop := true }] } }
      else {}

theorem idle_timely (w : World) : CycleInput.Timely w {} where
  results := by simp
  sau := by simp
  sdu := by simp

theorem oldestStore_ok (addr data : Word) (w : World) :
    (oldestStore addr data w).Legal w ∧ (oldestStore addr data w).Timely w := by
  unfold oldestStore
  split
  · exact ⟨idle_legal w, idle_timely w⟩
  · rename_i f fl hf
    have hmem : f ∈ w.flight := by simp [hf]
    split
    · rename_i hc
      simp only [Bool.and_eq_true, Bool.not_eq_true'] at hc
      obtain ⟨⟨hs, hlsu⟩, hfin⟩ := hc
      have hops := operandsOf_operands f.info
      have hslot : f.info.storeSlot = some f.info.operands.storeBufferId := by
        rw [OpInfo.storeSlot, if_pos hs]
        simp only [OpInfo.operands, OpInfo.toIssue]
        split <;> rfl
      have hbru : f.info.opUnit ≠ .bru := by
        intro he
        rw [he] at hlsu
        cases hlsu
      refine ⟨{ idle_legal w with sau := ?_, sdu := ?_ },
        { idle_timely w with sau := ?_, sdu := ?_ }⟩
      · rintro rev hrev
        cases hrev
        exact ⟨f, hmem, ⟨hops.robId, hops.pack, by simp [hbru], by rw [hlsu]; rfl⟩, rfl⟩
      · rintro rev hrev
        cases hrev
        exact ⟨f, hmem, ⟨hops.robId, hops.pack, by simp [hbru], by rw [hlsu]; rfl⟩, rfl⟩
      · rintro rev hrev
        cases hrev
        exact ⟨f, hmem, ⟨hops.robId, hslot⟩, hfin⟩
      · rintro rev hrev
        cases hrev
        exact ⟨f, hmem, ⟨hops.robId, hslot⟩, hfin⟩
    · exact ⟨idle_legal w, idle_timely w⟩

theorem oldestDone_ok (w : World) : (oldestDone w).Legal w ∧ (oldestDone w).Timely w := by
  unfold oldestDone
  split
  · exact ⟨idle_legal w, idle_timely w⟩
  · rename_i f fl hf
    split
    · rename_i hc
      rw [Bool.not_eq_true'] at hc
      have hres := resultOf_operands f.info
      refine ⟨{ idle_legal w with decoded := by simp, results := ?_ },
        { idle_timely w with results := ?_ }⟩
      · intro rev hrev _
        rw [List.mem_singleton.mp hrev]
        exact ⟨f, by simp [hf], hres.robId, hres.pack, hres.bru⟩
      · intro rev hrev _
        rw [List.mem_singleton.mp hrev]
        change (w.core.rob.buffer (ExecuteWbPack.copy f.info.operands).robId.id).finish = false
        rw [hres.robId]
        exact hc
    · exact ⟨idle_legal w, idle_timely w⟩

/-- `sw x0, 0(x0)` on its way to the memory; the address is the one the units are given. -/
def storing : List (World → CycleInput) :=
  [fun _ => fetchPacks [plainPack 0x80000000 0x00002023], oldestStore 0x80000000 5, oldestDone,
    fun _ => {}, fun _ => {}, fun _ => {}]

theorem drained_storing : ∃ d, (MemoryWorld.init (fun _ => 0) 0).play storing = some d
    ∧ d.stored = [⟨0x80000000, 4, 5⟩] ∧ d.system.slave.mem 0 = 5 ∧ d.Drained fun _ => 0 := by
  obtain ⟨d, hd⟩ : ∃ d, (MemoryWorld.init (fun _ => 0) 0).play storing = some d :=
    Option.isSome_iff_exists.mp (by decide +kernel)
  have hdid : ((MemoryWorld.init (fun _ => 0) 0).play storing).map
      (fun d => (d.stored, d.system.slave.mem 0)) = some ([⟨0x80000000, 4, 5⟩], 5) := by
    decide +kernel
  rw [hd, Option.map_some, Option.some.injEq, Prod.mk.injEq] at hdid
  refine ⟨d, hd, hdid.1, hdid.2, drained_reachable (MemoryReachable.play storing ?_ .init hd)⟩
  intro inp hinp w
  simp only [storing, List.mem_cons, List.not_mem_nil, or_false] at hinp
  rcases hinp with rfl | rfl | rfl | rfl | rfl | rfl
  · refine ⟨fetchPacks_legal ?_ w, { idle_timely w with results := by simp [fetchPacks] }⟩
    intro p hp
    rw [List.mem_singleton.mp hp]
    exact plainPack_ok ..
  · exact oldestStore_ok ..
  · exact oldestDone_ok w
  all_goals exact ⟨idle_legal w, idle_timely w⟩

end DreamCore
