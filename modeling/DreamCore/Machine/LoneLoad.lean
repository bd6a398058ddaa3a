import DreamCore.Machine.Access

/-!
# A load, alone

The load unit reports a misaligned load in the next cycle, and any other when its bus
has answered. The memory answers when its latency is over and the CLINT at once, but
for a byte or a halfword, which it does not answer at all.
-/

namespace DreamCore

open Ring

variable {m : Isa.Model} {p : Passage m} {w : Word} {q : FetchOpInfo} {rev : ReadregExecutePack}

/-! ## A load in the load unit -/

/-- The load unit has taken the load and waits for the bus, or for its turn to report. -/
structure LuState.Holds (s : LuState) (rev : ReadregExecutePack) : Prop where
  pack : s.l2RevPack = { rev with
    exceptionValue := rev.effectiveAddr
    hasException := !checkAlign rev.effectiveAddr (luSize rev)
    exceptionId := if checkAlign rev.effectiveAddr (luSize rev) then .loadAccessFault
      else .loadAddressMisaligned }
  conflict : s.l2ConflictFound = false
  cacheable : s.l2IsCacheable = isCacheable rev.effectiveAddr

/-- Nothing is in the way of a load that is alone. -/
theorem LuState.Holds.alive {lu : LuState} (h : lu.Holds rev) (hen : rev.enable = true) :
    luAlive lu {} = true := by
  unfold luAlive
  rw [h.pack, h.conflict]
  dsimp only
  rw [hen]
  rfl

theorem LuState.Holds.send_enable {lu : LuState} (h : lu.Holds rev) (hen : rev.enable = true)
    (value : Option Word) :
    (luSend lu {} value).enable
      = !(checkAlign rev.effectiveAddr (luSize rev) && value.isNone) := by
  unfold luSend
  rw [if_pos (h.alive hen), h.pack]
  dsimp only
  cases checkAlign rev.effectiveAddr (luSize rev) with
  | false => exact hen
  | true =>
    cases value with
    | none => rfl
    | some v => exact hen

theorem LuState.Holds.stalls {lu : LuState} (h : lu.Holds rev) (hen : rev.enable = true)
    (value : Option Word) :
    luStalls lu {} value = !(luSend lu {} value).enable := by
  rw [h.send_enable hen, Bool.not_not]
  unfold luStalls
  rw [h.alive hen, h.pack]
  simp

/-- What it reports. -/
theorem LuState.Holds.sent {lu : LuState} (h : lu.Holds rev) (hen : rev.enable = true)
    {value : Option Word} (hs : (luSend lu {} value).enable = true) :
    (luSend lu {} value).robId = rev.robId ∧ (luSend lu {} value).lastUop = rev.lastUop
      ∧ (luSend lu {} value).opUnit = rev.opUnit
      ∧ (luSend lu {} value).hasException = !checkAlign rev.effectiveAddr (luSize rev)
      ∧ (luSend lu {} value).exceptionValue = rev.effectiveAddr
      ∧ (luSend lu {} value).exceptionId = if checkAlign rev.effectiveAddr (luSize rev) then
          .loadAccessFault else .loadAddressMisaligned := by
  rw [h.send_enable hen] at hs
  unfold luSend
  rw [if_pos (h.alive hen), h.pack]
  dsimp only
  cases ha : checkAlign rev.effectiveAddr (luSize rev) with
  | false => exact ⟨rfl, rfl, rfl, rfl, rfl, rfl⟩
  | true =>
    cases value with
    | none =>
      rw [ha] at hs
      cases hs
    | some v => exact ⟨rfl, rfl, rfl, rfl, rfl, rfl⟩

/-- While it stalls it holds on. -/
theorem LuState.Holds.next {lu : LuState} (h : lu.Holds rev) {value : Option Word}
    (hs : luStalls lu {} value = true) : (luRun lu {} value).next.Holds rev := by
  have hnext : (luRun lu {} value).next = { lu with
      l2LastStall := lu.l2Stall
      l2LastLastStall := !luStalls lu {} value && lu.l2Stall
      l2Stall := luStalls lu {} value } := by
    unfold luRun luLevel1
    dsimp only
    rw [hs]
    rfl
  rw [hnext]
  exact ⟨h.pack, h.conflict, h.cacheable⟩

/-! ## Its way over the bus -/

namespace Passage

theorem loads_succ (rev : ReadregExecutePack) (k : Nat) :
    p.loads rev (k + 1) = (p.loads rev k).act { clint := m.clint } := by
  unfold loads
  rw [List.replicate_succ', List.foldl_concat]

/-- The cycle in which the load unit takes the load. -/
abbrev taking (m : Isa.Model) (rev : ReadregExecutePack) : LoadInput :=
  { lu := { rev := some rev }, clint := m.clint }

theorem loads_zero (rev : ReadregExecutePack) :
    p.loads rev 0 = (LoadSystem.init m.mem p.latency).act (taking m rev) := rfl

theorem taken_request (p : Passage m) (rev : ReadregExecutePack) :
    ((LoadSystem.init m.mem p.latency).turn (taking m rev)).request = luRequest rev := rfl

theorem loads_holds (hen : rev.enable = true) (hx : rev.hasException = false) :
    (p.loads rev 0).lu.Holds rev := by
  have hlu : (p.loads rev 0).lu = luTake {} (taking m rev).lu rev := rfl
  rw [hlu]
  unfold luTake
  rw [if_pos (by rw [hen, hx]; rfl)]
  exact ⟨rfl, rfl, rfl⟩

/-- A load that has not been reported is still there, and asks for nothing more. -/
theorem loads_step {k : Nat} (h : (p.loads rev k).lu.Holds rev) (hen : rev.enable = true)
    (hsend : (p.loadSend rev k).enable = false) :
    luStalls (p.loads rev k).lu {} (p.loads rev k).shown = true
      ∧ (p.loads rev (k + 1)).lu.Holds rev := by
  have hs : luStalls (p.loads rev k).lu {} (p.loads rev k).shown = true := by
    rw [h.stalls hen]
    exact (Bool.not_eq_true' _).mpr hsend
  rw [loads_succ]
  exact ⟨hs, h.next hs⟩

/-- What is found is what comes first. -/
theorem loaded_eq_some {k n : Nat} (h : (p.loadSend rev k).enable = true)
    (hmin : ∀ j < k, (p.loadSend rev j).enable = false) (hn : k < n) :
    p.loaded rev n = some (p.loadSend rev k) := by
  unfold loaded
  rw [List.find?_map]
  have hfind : (List.range n).find? ((·.enable) ∘ p.loadSend rev) = some k := by
    rw [List.find?_range_eq_some]
    exact ⟨h, List.mem_range.mpr hn, fun j hj => by simp [hmin j hj]⟩
  rw [hfind]
  rfl

theorem loaded_eq_none {n : Nat} (h : ∀ k, (p.loadSend rev k).enable = false) :
    p.loaded rev n = none := by
  unfold loaded
  rw [List.find?_eq_none]
  intro send hsend
  obtain ⟨k, -, rfl⟩ := List.mem_map.mp hsend
  rw [h k]
  exact Bool.false_ne_true

/-- The load is one that no slave answers. -/
def Unanswered (addr : Word) (size : Nat) : Prop :=
  clintSlave.maps addr false = true ∧ size ≠ 4

/-- **A misaligned load** is reported in the next cycle. -/
theorem loaded_misaligned (hen : rev.enable = true) (hx : rev.hasException = false)
    (ha : checkAlign rev.effectiveAddr (luSize rev) = false) {n : Nat} (hn : 0 < n) :
    ∃ send, p.loaded rev n = some send ∧ send.enable = true ∧ send.robId = rev.robId
      ∧ send.lastUop = rev.lastUop ∧ send.opUnit = rev.opUnit ∧ send.hasException = true
      ∧ send.exceptionId = .loadAddressMisaligned ∧ send.exceptionValue = rev.effectiveAddr := by
  have hholds := p.loads_holds hen hx
  have hsend : (p.loadSend rev 0).enable = true := by
    unfold loadSend
    rw [hholds.send_enable hen, ha]
    rfl
  obtain ⟨hid, hlast, hunit, hex, hval, heid⟩ := hholds.sent hen hsend
  rw [ha] at hex heid
  exact ⟨_, loaded_eq_some hsend (fun j hj => absurd hj (Nat.not_lt_zero j)) hn, hsend, hid, hlast,
    hunit, hex, heid, hval⟩

/-- The bus of the CLINT while a narrow load waits for it. -/
theorem loads_silent (hen : rev.enable = true) (hx : rev.hasException = false)
    (ha : checkAlign rev.effectiveAddr (luSize rev) = true)
    (hb : isCacheable rev.effectiveAddr = false)
    (hn : Unanswered rev.effectiveAddr (luSize rev)) (k : Nat) :
    (p.loads rev k).lu.Holds rev ∧ (p.loads rev k).noncacheable.dataValue = none := by
  induction k with
  | zero =>
    refine ⟨loads_holds hen hx, ?_⟩
    have hreq : ((LoadSystem.init m.mem p.latency).turn (taking m rev)).request
        = some ⟨false, rev.effectiveAddr, luSize rev⟩ := by
      rw [taken_request, luRequest, if_pos (by rw [hen, hx, ha]; rfl), hb]
    rw [loads_zero]
    change ((LoadSystem.init m.mem p.latency).asked (taking m rev)).2.2.dataValue = none
    unfold LoadSystem.asked
    rw [hreq]
    dsimp only
    rw [if_neg Bool.false_ne_true, noncacheableRead, if_pos hn.1, if_neg]
    · rfl
    · rw [Bool.and_eq_true, beq_iff_eq]
      exact fun hc => hn.2 hc.2
  | succ k ih =>
    obtain ⟨hholds, hnone⟩ := ih
    have hshown : (p.loads rev k).shown = none := by
      unfold LoadSystem.shown
      rw [hholds.cacheable, hb]
      exact Option.map_eq_none_iff.mpr hnone
    have hsend : (p.loadSend rev k).enable = false := by
      unfold loadSend
      rw [hholds.send_enable hen, ha, hshown]
      rfl
    obtain ⟨hs, hnext⟩ := loads_step hholds hen hsend
    refine ⟨hnext, ?_⟩
    obtain ⟨hreq, hrev, -⟩ := luRun_of_stalls hs
    have hbus : (p.loads rev k).revoked { clint := m.clint } false
        = ((p.loads rev k).bus false).start := revoked_other (.inl hrev)
    rw [loads_succ]
    change ((p.loads rev k).asked { clint := m.clint }).2.2.dataValue = none
    unfold LoadSystem.asked LoadSystem.turn
    rw [hreq]
    dsimp only
    rw [hbus]
    rfl

/-- **A byte or a halfword of the CLINT is never reported.** -/
theorem loaded_unanswered (hen : rev.enable = true) (hx : rev.hasException = false)
    (ha : checkAlign rev.effectiveAddr (luSize rev) = true)
    (hb : isCacheable rev.effectiveAddr = false)
    (hn : Unanswered rev.effectiveAddr (luSize rev)) (n : Nat) : p.loaded rev n = none := by
  refine loaded_eq_none fun k => ?_
  obtain ⟨hholds, hnone⟩ := p.loads_silent hen hx ha hb hn k
  have hshown : (p.loads rev k).shown = none := by
    unfold LoadSystem.shown
    rw [hholds.cacheable, hb]
    exact Option.map_eq_none_iff.mpr hnone
  unfold loadSend
  rw [hholds.send_enable hen, ha, hshown]
  rfl

/-- The request of the load. -/
abbrev requestOf (rev : ReadregExecutePack) : LuRequest :=
  ⟨isCacheable rev.effectiveAddr, rev.effectiveAddr, luSize rev⟩

/-- As long as the load has not been reported, its request is the one in the second level. -/
theorem loads_waits (hen : rev.enable = true) (hx : rev.hasException = false)
    (ha : checkAlign rev.effectiveAddr (luSize rev) = true) (hn : ¬(requestOf rev).NarrowClint)
    (k : Nat) (hmin : ∀ j < k, (p.loadSend rev j).enable = false) :
    (p.loads rev k).lu.Holds rev ∧ LoadsOk p.latency (p.loads rev k)
      ∧ ∃ l, (p.loads rev k).live = some l ∧ l.age = k ∧ l.request = requestOf rev := by
  induction k with
  | zero =>
    have hreq : ((LoadSystem.init m.mem p.latency).turn (taking m rev)).request
        = some (requestOf rev) := by
      rw [taken_request, luRequest, if_pos (by rw [hen, hx, ha]; rfl)]
    refine ⟨loads_holds hen hx, ?_, _, live_asking hreq, rfl, rfl⟩
    refine loadsOk_step (loadsOk_init m.mem p.latency) fun l hl => ?_
    rw [hreq] at hl
    exact Option.some.inj hl ▸ hn
  | succ k ih =>
    obtain ⟨hholds, hok, l, hl, hage, hrequest⟩ := ih fun j hj => hmin j (Nat.lt_succ_of_lt hj)
    obtain ⟨hs, hnext⟩ := loads_step hholds hen (hmin k (Nat.lt_succ_self k))
    obtain ⟨hreq, -, -⟩ := luRun_of_stalls hs
    refine ⟨hnext, ?_, { l with age := l.age + 1 }, ?_, by rw [← hage], hrequest⟩
    · rw [loads_succ]
      refine loadsOk_step hok fun l' hl' => ?_
      rw [show ((p.loads rev k).turn { clint := m.clint }).request = none from hreq] at hl'
      cases hl'
    · rw [loads_succ]
      change (p.loads rev k).liveAfter { clint := m.clint } = _
      unfold LoadSystem.liveAfter LoadSystem.turn
      rw [hreq]
      dsimp only
      rw [luRun_stalls, hs, if_pos rfl, hl]
      rfl

/-- **Any other load is answered**, and reported without an exception. -/
theorem loaded_answered (hen : rev.enable = true) (hx : rev.hasException = false)
    (ha : checkAlign rev.effectiveAddr (luSize rev) = true)
    (hn : ¬(requestOf rev).NarrowClint) :
    ∃ k, ∀ n > k, ∃ send, p.loaded rev n = some send ∧ send.enable = true
      ∧ send.robId = rev.robId ∧ send.lastUop = rev.lastUop ∧ send.opUnit = rev.opUnit
      ∧ send.hasException = false := by
  have hexists : ∃ k, (p.loadSend rev k).enable = true := by
    by_contra hno
    rw [not_exists] at hno
    have hno (j : Nat) : (p.loadSend rev j).enable = false := Bool.eq_false_iff.mpr (hno j)
    -- by then the slave has answered
    obtain ⟨hholds, hok, l, hl, hage, hreq⟩ :=
      p.loads_waits hen hx ha hn ((requestOf rev).wait p.latency) fun j _ => hno j
    have hsilent := hno ((requestOf rev).wait p.latency)
    unfold loadSend at hsilent
    rw [hholds.send_enable hen, ha, Bool.true_and, Bool.not_eq_false'] at hsilent
    rcases hok.shows hl with ⟨-, hlt⟩ | hv
    · rw [hreq, hage] at hlt
      exact Nat.lt_irrefl _ hlt
    · rw [hreq] at hv
      unfold LoadSystem.shown at hsilent
      rw [hholds.cacheable, hv] at hsilent
      cases hsilent
  have hfirst := Nat.find_spec hexists
  have hmin (j : Nat) (hj : j < Nat.find hexists) : (p.loadSend rev j).enable = false :=
    Bool.eq_false_iff.mpr (Nat.find_min hexists hj)
  refine ⟨Nat.find hexists, fun n hlt => ?_⟩
  obtain ⟨hholds, -⟩ := p.loads_waits hen hx ha hn _ hmin
  obtain ⟨hid, hlast, hunit, hex, -⟩ := hholds.sent hen hfirst
  rw [ha] at hex
  exact ⟨_, loaded_eq_some hfirst hmin hlt, hfirst, hid, hlast, hunit, hex⟩

end Passage

/-! ## Loads in both models -/

/-- The CLINT is not cached. -/
theorem clint_noncacheable {addr : Word} (h : clintSlave.maps addr false = true) :
    isCacheable addr = false := by
  simp only [SlaveInfo.maps, Bool.and_eq_true, decide_eq_true_eq] at h
  have hhi : addr < clintSlave.base + BitVec.ofNat 32 clintSlave.size := h.1.2
  have hend : clintSlave.base + BitVec.ofNat 32 clintSlave.size = 0x20010000#32 := by decide
  rw [hend] at hhi
  unfold isCacheable
  rw [decide_eq_false_iff_not]
  bv_omega

/-- The ISA model performs an access or aborts. -/
theorem Ending.same_performed {e : Ending} {b : Bool} :
    e.Same (if b then .retires else .aborts) ↔ e = .retires ∧ b = true := by
  unfold Ending.Same
  cases b with
  | false =>
    refine iff_of_false (fun h => h.2.1 h.1) fun h => ?_
    cases h.2
  | true =>
    constructor
    · exact fun h => ⟨h.1, rfl⟩
    · rintro ⟨rfl, -⟩
      exact ⟨rfl, Ending.noConfusion, Ending.noConfusion⟩

/-- The address of a load, the one of a store, and the size of both. -/
def Isa.Model.loadAddr (m : Isa.Model) (w : Word) : Word :=
  m.archRegfile.read (rs1Of w) + (immI w).signExtend 32

def Isa.Model.storeAddr (m : Isa.Model) (w : Word) : Word :=
  m.archRegfile.read (rs1Of w) + (immS w).signExtend 32

def accessSize (w : Word) : Nat := 2 ^ (funct3Of w % 4)

theorem accessSize_pow (hf : funct3Of w % 4 ≠ 3) : ∃ k ≤ 2, accessSize w = 2 ^ k :=
  ⟨funct3Of w % 4, by omega, rfl⟩

namespace Passage

/-- A load that has been reported. -/
theorem execute_loaded {op : Isa.LsuOp} {addr : Word} (hq : q.Brings m.pc w)
    (h : p.LsuRead q rev op addr) (hu : q.decoded.opUnit = .lu) {n : Nat} {send : ExecuteWbPack}
    (hload : p.loaded rev n = some send) (hen : send.enable = true)
    (hid : send.robId = rev.robId) (hlast : send.lastUop = rev.lastUop)
    (hunit : send.opUnit = rev.opUnit) :
    p.execute q.decoded n
      = Ending.raised send.hasException send.exceptionId m.pc send.exceptionValue := by
  have hagrees : send.opUnit = .bru → send.Agrees := by
    rw [hunit, h.opUnit, hu]
    exact OpUnit.noConfusion
  unfold execute
  dsimp only
  rw [hu, h.pack]
  dsimp only
  rw [hload]
  dsimp only
  rw [p.reported_one _ hen (hid.trans h.robId), ← hq.pc, ← decode_pc q.toFetch2DecodePack]
  exact ending_applyResult hq.hasException (hlast.trans h.lastUop) hagrees

theorem execute_not_loaded {op : Isa.LsuOp} {addr : Word} (h : p.LsuRead q rev op addr)
    (hu : q.decoded.opUnit = .lu) {n : Nat} (hload : p.loaded rev n = none) :
    p.execute q.decoded n = .running := by
  unfold execute
  dsimp only
  rw [hu, h.pack]
  dsimp only
  rw [hload]

/-- **A load ends alike** where it is aligned and no byte or halfword of the CLINT. -/
theorem load_same_iff (hq : q.Brings m.pc w) (hw : opcodeOf w = 0x03)
    (hf : funct3Of w ≠ 3 ∧ funct3Of w < 6) (m' : Isa.Model) :
    (∃ n, ∀ n' ≥ n, (p.execute q.decoded n').Same
        (Isa.endingOf (Isa.executeUnit (m.operands w) m')))
      ↔ checkAlign (m.loadAddr w) (accessSize w) = true
        ∧ (clintSlave.maps (m.loadAddr w) false = true → accessSize w = 4) := by
  obtain ⟨op, hop, hdec⟩ := decode_load hw hf m.pc m.archRegfile
  obtain ⟨rev, hread⟩ := p.lsuRead hq hdec
  obtain ⟨lop, hlop, hlsize⟩ := SubOp.lu_of_load hread.subOp hop
  have hu : q.decoded.opUnit = .lu := by
    rw [← hread.opUnit, ← hread.unit, hlop]
    rfl
  have hsize : luSize rev = accessSize w := by
    unfold luSize
    rw [hlop]
    exact hlsize.trans hdec.size
  have haddr : rev.effectiveAddr = m.loadAddr w := hread.addr
  obtain ⟨k, hk, hpow⟩ := accessSize_pow (w := w) (by omega)
  have hisa : Isa.endingOf (Isa.executeUnit (m.operands w) m')
      = if Isa.busTakes (m.loadAddr w) (accessSize w) then .retires else .aborts := by
    unfold Isa.executeUnit
    rw [hdec.opUnit]
    have hend := Isa.executeLsu_ends hdec.valid hdec.hasException hdec.subOp m'
    rw [hdec.addr, hdec.size] at hend
    exact hend
  simp only [hisa, Ending.same_performed]
  rw [hpow, Isa.busTakes_eq _ hk, ← hpow]
  rw [← haddr, ← hsize]
  cases ha : checkAlign rev.effectiveAddr (luSize rev) with
  | false =>
    refine iff_of_false ?_ fun h => Bool.false_ne_true h.1
    rintro ⟨n, hn⟩
    obtain ⟨send, hload, hen, hid, hlast, hunit, hx, -⟩ :=
      p.loaded_misaligned hread.enable hread.hasException ha (n := n + 1) (Nat.succ_pos n)
    have hend := (hn (n + 1) (Nat.le_succ n)).1
    rw [execute_loaded hq hread hu hload hen hid hlast hunit, hx] at hend
    cases hend
  | true =>
    by_cases hc : Unanswered rev.effectiveAddr (luSize rev)
    · refine iff_of_false ?_ fun h => hc.2 (h.2 hc.1)
      rintro ⟨n, hn⟩
      have hend := (hn n (Nat.le_refl n)).1
      rw [execute_not_loaded hread hu (p.loaded_unanswered hread.enable hread.hasException ha
        (clint_noncacheable hc.1) hc n)] at hend
      cases hend
    · have hanswered : ¬(requestOf rev).NarrowClint := fun hn => hc ⟨hn.2.1, hn.2.2⟩
      obtain ⟨k, hk⟩ := p.loaded_answered hread.enable hread.hasException ha hanswered
      refine iff_of_true ⟨k + 1, fun n hn => ?_⟩ ⟨rfl, fun hm => ?_⟩
      · obtain ⟨send, hload, hen, hid, hlast, hunit, hx⟩ := hk n hn
        rw [execute_loaded hq hread hu hload hen hid hlast hunit, hx]
        exact ⟨rfl, rfl⟩
      · by_contra hne
        exact hc ⟨hm, hne⟩

end Passage

end DreamCore
