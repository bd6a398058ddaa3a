import DreamCore.Memory.Loads

/-!
# Loads and answers stay paired

The memory keeps requests in the order they came, so the answers nobody waits for
are the oldest ones, and there are as many of them as the bus still has to
swallow. Queued them stands at most one request with an owner, and it has moved
on by one place for every cycle since.

The CLINT answers within the call, so that nothing is ever outstanding on its bus,
with one exception: a byte or a halfword is not answered at all.
-/

namespace DreamCore

open Ring

variable {latency : Nat} {sys : LoadSystem} {inp : LoadInput}

/-! ## The array of reads -/

section Reads

variable {α : Type} {pipe rest : List (Option α)} {x : α} {n : Nat}

/-- How many requests wait. -/
def waiting (pipe : List (Option α)) : Nat := (pipe.filterMap id).length

theorem waiting_append (l₁ l₂ : List (Option α)) :
    waiting (l₁ ++ l₂) = waiting l₁ + waiting l₂ := by
  simp [waiting]

@[simp] theorem waiting_none (pipe : List (Option α)) : waiting (none :: pipe) = waiting pipe := rfl

@[simp] theorem waiting_some (x : α) (pipe : List (Option α)) :
    waiting (some x :: pipe) = waiting pipe + 1 := rfl

@[simp] theorem waiting_replicate (n : Nat) : waiting (List.replicate n (none : Option α)) = 0 := by
  induction n with
  | zero => rfl
  | succ n ih =>
    rw [List.replicate_succ, waiting_none]
    exact ih

/-- **One place further, the request that is due has left.** -/
theorem waiting_shift (hne : pipe ≠ []) :
    waiting pipe = waiting (MemorySlave.shift pipe) + (MemorySlave.due pipe).isSome.toNat := by
  have hsplit := List.dropLast_append_getLast hne
  have hlast : MemorySlave.due pipe = pipe.getLast hne := by
    rw [MemorySlave.due, List.getLast?_eq_some_getLast hne]
    rfl
  rw [MemorySlave.shift, waiting_none, hlast]
  nth_rewrite 1 [← hsplit]
  rw [waiting_append]
  cases pipe.getLast hne with
  | none => rfl
  | some x => rfl

theorem shift_length (hne : pipe ≠ []) : (MemorySlave.shift pipe).length = pipe.length := by
  have hpos : 0 < pipe.length := List.length_pos_iff.mpr hne
  rw [MemorySlave.shift, List.length_cons, List.length_dropLast]
  omega

/-- The youngest request and what is in front of it move on together. -/
theorem shift_youngest (hne : rest ≠ []) :
    MemorySlave.shift (List.replicate n none ++ some x :: rest)
      = List.replicate (n + 1) none ++ some x :: rest.dropLast := by
  rw [MemorySlave.shift, List.dropLast_append_of_ne_nil (by simp),
    List.dropLast_cons_of_ne_nil hne]
  rfl

theorem due_youngest (hne : rest ≠ []) :
    MemorySlave.due (List.replicate n none ++ some x :: rest) = MemorySlave.due rest := by
  rw [MemorySlave.due, MemorySlave.due, List.getLast?_append, List.getLast?_cons,
    List.getLast?_eq_some_getLast hne]
  rfl

end Reads

/-- What `run_post` does on the reading side. -/
theorem MemorySlave.runPost_reads {α : Type} (s : MemorySlave α) (bus : DataBus α) :
    (s.runPost bus).1.reads = shift s.reads
      ∧ (s.runPost bus).2.dataValue
        = ((due s.reads).elim bus fun x => bus.setDataValue x).dataValue
      ∧ (s.runPost bus).2.revokeDataCnt
        = ((due s.reads).elim bus fun x => bus.setDataValue x).revokeDataCnt := by
  unfold MemorySlave.runPost
  dsimp only
  cases due s.reads with
  | none => cases due s.writes <;> exact ⟨rfl, rfl, rfl⟩
  | some x => cases due s.writes <;> exact ⟨rfl, rfl, rfl⟩

/-- An answer that is due while all in front of it are to be swallowed is swallowed. -/
theorem DataBus.swallow {α : Type} {bus : DataBus α} {due : Option α} {n : Nat}
    (h : bus.revokeDataCnt = n + due.isSome.toNat) :
    (due.elim bus fun x => bus.setDataValue x).dataValue = bus.dataValue
      ∧ (due.elim bus fun x => bus.setDataValue x).revokeDataCnt = n := by
  cases due with
  | none => exact ⟨rfl, h⟩
  | some x =>
    have hpos : bus.revokeDataCnt > 0 := by
      rw [h]
      exact Nat.succ_pos _
    rw [Option.elim_some, DataBus.setDataValue, if_pos hpos]
    exact ⟨rfl, by dsimp only; rw [h]; rfl⟩

/-! ## One bus -/

/-- **Nobody waits for the memory**: all it still has to answer is to be swallowed. -/
structure Settled (latency : Nat) (reads : List (Option Answer)) (bus : DataBus Answer) :
    Prop where
  length : reads.length = latency + 1
  count : waiting reads = bus.revokeDataCnt

/-- **Request `q` waits behind what is to be swallowed**, in place `n`. -/
structure Queued (latency : Nat) (q : LiveRequest) (n : Nat) (reads : List (Option Answer))
    (bus : DataBus Answer) : Prop where
  empty : bus.dataValue = none
  place : ∃ rest, reads = List.replicate n none ++ some q.answer :: rest
    ∧ n + rest.length = latency ∧ waiting rest = bus.revokeDataCnt

variable {reads : List (Option Answer)} {bus : DataBus Answer} {q : LiveRequest} {n : Nat}
  {s : MemorySlave Answer}

/-- Nobody waits, and nobody is disturbed. -/
theorem Settled.runPost (h : Settled latency s.reads bus) :
    Settled latency (s.runPost bus).1.reads (s.runPost bus).2
      ∧ (s.runPost bus).2.dataValue = bus.dataValue := by
  have hne : s.reads ≠ [] := by
    intro he
    have hlen := h.length
    rw [he] at hlen
    cases hlen
  obtain ⟨hr, hv, hc⟩ := s.runPost_reads bus
  obtain ⟨hv', hc'⟩ := DataBus.swallow (h.count.symm.trans (waiting_shift hne))
  exact ⟨⟨hr ▸ (shift_length hne).trans h.length, by rw [hr, hc, hc']⟩, hv.trans hv'⟩

/-- The request moves on, or is answered when it has come to the end. -/
theorem Queued.runPost (h : Queued latency q n s.reads bus) :
    (n < latency ∧ Queued latency q (n + 1) (s.runPost bus).1.reads (s.runPost bus).2)
      ∨ (n = latency ∧ Settled latency (s.runPost bus).1.reads (s.runPost bus).2
        ∧ (s.runPost bus).2.dataValue = some q.answer) := by
  obtain ⟨rest, hreads, hlen, hcount⟩ := h.place
  obtain ⟨hr, hv, hc⟩ := s.runPost_reads bus
  rw [hreads] at hr hv hc
  by_cases hrest : rest = []
  · right
    rw [hrest] at hr hv hc hlen hcount
    have hdue : MemorySlave.due (List.replicate n none ++ [some q.answer]) = some q.answer := by
      rw [MemorySlave.due, List.getLast?_concat]
      rfl
    have hzero : ¬ bus.revokeDataCnt > 0 := by
      rw [← hcount]
      exact Nat.not_lt_zero 0
    rw [hdue, Option.elim_some, DataBus.setDataValue, if_neg hzero] at hv hc
    have hshift : MemorySlave.shift (List.replicate n none ++ [some q.answer])
        = List.replicate (n + 1) none := by
      rw [MemorySlave.shift, List.dropLast_concat]
      rfl
    rw [hshift] at hr
    refine ⟨hlen, ⟨?_, ?_⟩, hv⟩
    · rw [hr, List.length_replicate, ← hlen, List.length_nil]
    · rw [hr, hc, waiting_replicate]
      exact hcount
  · left
    have hpos : 0 < rest.length := List.length_pos_iff.mpr hrest
    rw [due_youngest hrest] at hv hc
    rw [shift_youngest hrest] at hr
    obtain ⟨hv', hc'⟩ := DataBus.swallow (hcount.symm.trans (waiting_shift hrest))
    refine ⟨by omega, hv.trans (hv'.trans h.empty), rest.dropLast, hr, ?_, ?_⟩
    · rw [List.length_dropLast]
      omega
    · rw [hc, hc']
      rfl

/-! ## The invariant -/

/-- **Where the memory's bus stands**, `live` being the request the load unit has on it. -/
inductive MemoryBus (latency : Nat) (reads : List (Option Answer)) (bus : DataBus Answer) :
    Option LiveRequest → Prop where
  | idle : Settled latency reads bus → bus.dataValue = none → MemoryBus latency reads bus none
  | queued (q : LiveRequest) : q.request.wait latency = latency →
      Queued latency q (q.age + 1) reads bus → MemoryBus latency reads bus (some q)
  | there (q : LiveRequest) : q.age = q.request.wait latency → Settled latency reads bus →
      bus.dataValue = some q.answer → MemoryBus latency reads bus (some q)

/-- **Where the bus of the CLINT stands**: whatever is asked is answered at once. -/
inductive ClintBus (latency : Nat) (bus : DataBus Answer) : Option LiveRequest → Prop where
  | idle : bus.revokeDataCnt = 0 → bus.dataValue = none → ClintBus latency bus none
  | there (q : LiveRequest) : q.age = q.request.wait latency → bus.revokeDataCnt = 0 →
      bus.dataValue = some q.answer → ClintBus latency bus (some q)

/-- The request the second level's load has made. -/
def LuState.held (s : LuState) : Option LuRequest :=
  if s.l2RevPack.enable && !s.l2RevPack.hasException then
    some ⟨s.l2IsCacheable, s.l2Addr, luSize s.l2RevPack⟩
  else none

/-- **The buses and the load unit agree on who waits for what.** -/
structure LoadsOk (latency : Nat) (sys : LoadSystem) : Prop where
  held : sys.live.map (·.request) = sys.lu.held
  head : ∃ t, sys.memory.reads = none :: t
  memory : MemoryBus latency sys.memory.reads sys.cacheable (sys.live.filter (·.request.cacheable))
  clint : ClintBus latency sys.noncacheable (sys.live.filter (!·.request.cacheable))

theorem loadsOk_init (mem : Mem) (latency : Nat) : LoadsOk latency (.init mem latency) where
  held := rfl
  head := ⟨_, rfl⟩
  memory := .idle ⟨List.length_replicate .., waiting_replicate _⟩ rfl
  clint := .idle rfl rfl

/-! ## The load unit -/

/-- While it stalls nothing moves. -/
theorem luRun_of_stalls {lu : LuState} {inp : LuInput} {value : Option Word}
    (h : luStalls lu inp value = true) : (luRun lu inp value).request = none
      ∧ (luRun lu inp value).revoke = false ∧ (luRun lu inp value).next.held = lu.held := by
  have hall := h
  simp only [luStalls, Bool.and_eq_true] at hall
  obtain ⟨⟨halive, -⟩, -⟩ := hall
  have hflush : inp.commitFlush = false := by
    simp only [luAlive, LuInput.squashes, Bool.and_eq_true, Bool.not_eq_true',
      Bool.or_eq_false_iff] at halive
    exact halive.2.1.1
  refine ⟨?_, ?_, ?_⟩
  · change (luAccepted inp (luStalls lu inp value)).bind luRequest = none
    rw [luAccepted, h, Bool.or_true, if_pos rfl]
    rfl
  · change (!luAlive lu inp && _ && _) = false
    rw [halive]
    rfl
  · change (luLevel1 { lu with
      l2LastStall := lu.l2Stall
      l2LastLastStall := !luStalls lu inp value && lu.l2Stall
      l2Stall := luStalls lu inp value } inp).held = _
    rw [luLevel1, hflush, h]
    rfl

/-- **What the first level takes is what it asks for.** -/
theorem luTake_held (lu : LuState) (inp : LuInput) (rev : ReadregExecutePack) :
    (luTake lu inp rev).held = luRequest rev := by
  unfold luTake luRequest LuState.held
  dsimp only
  by_cases hc : (rev.enable && !rev.hasException) = true
  · rw [if_pos hc]
    obtain ⟨hen, hex⟩ := Bool.and_eq_true_iff.mp hc
    dsimp only
    rw [hex, hen, Bool.not_not]
    rfl
  · rw [if_neg hc, if_neg hc, Bool.not_eq_true] at *
    rw [hc, Bool.false_and]
    rfl

/-- Otherwise the first level decides what the second level holds next. -/
theorem luRun_of_not_stalls {lu : LuState} {inp : LuInput} {value : Option Word}
    (h : luStalls lu inp value = false) :
    (luRun lu inp value).next.held = (luRun lu inp value).request := by
  change (luLevel1 { lu with
      l2LastStall := lu.l2Stall
      l2LastLastStall := !luStalls lu inp value && lu.l2Stall
      l2Stall := luStalls lu inp value } inp).held
    = (luAccepted inp (luStalls lu inp value)).bind luRequest
  rw [luLevel1, h, Bool.and_false, if_neg Bool.false_ne_true]
  dsimp only
  cases luAccepted inp false with
  | none => rfl
  | some rev => exact luTake_held ..

/-! ## A cycle -/

/-- **Nobody waits for anything** after the second level's turn. -/
structure Quiet (latency : Nat) (sys : LoadSystem) (inp : LoadInput) : Prop where
  memory : Settled latency sys.memory.reads (sys.revoked inp true)
  memoryEmpty : (sys.revoked inp true).dataValue = none
  clint : (sys.revoked inp false).revokeDataCnt = 0
  clintEmpty : (sys.revoked inp false).dataValue = none

/-- The second level's load waits on. -/
structure Waits (latency : Nat) (sys : LoadSystem) (inp : LoadInput) (q : LiveRequest) : Prop where
  live : sys.live = some q
  cacheable : q.request.cacheable = true
  wait : q.request.wait latency = latency
  memory : Queued latency q (q.age + 1) sys.memory.reads (sys.revoked inp true)
  clint : (sys.revoked inp false).revokeDataCnt = 0
  clintEmpty : (sys.revoked inp false).dataValue = none

/-- A bus without a load in the second level. -/
theorem revoked_other {b : Bool} (h : (sys.turn inp).revoke = false ∨ sys.lu.l2IsCacheable ≠ b) :
    sys.revoked inp b = (sys.bus b).start := by
  unfold LoadSystem.revoked
  rw [if_neg]
  intro hc
  rw [Bool.and_eq_true, beq_iff_eq] at hc
  rcases h with h | h
  · rw [hc.1] at h
    cases h
  · exact h hc.2

/-- An answer that is there need not be swallowed. -/
theorem revoked_there {b : Bool} {a : Answer} (h : (sys.bus b).dataValue = some a) :
    sys.revoked inp b = (sys.bus b).start := by
  unfold LoadSystem.revoked DataBus.revokeDataRequest
  split
  · rw [if_neg]
    rw [h]
    exact Bool.false_ne_true
  · rfl

theorem LuState.held_eq_some {lu : LuState} {r : LuRequest} (h : lu.held = some r) :
    lu.l2RevPack.enable = true ∧ lu.l2RevPack.hasException = false
      ∧ r = ⟨lu.l2IsCacheable, lu.l2Addr, luSize lu.l2RevPack⟩ := by
  unfold LuState.held at h
  split at h
  · rename_i hc
    rw [Bool.and_eq_true, Bool.not_eq_true'] at hc
    exact ⟨hc.1, hc.2, (Option.some.inj h).symm⟩
  · cases h

/-- Who takes a request back has made it. -/
theorem revoke_owner (h : LoadsOk latency sys) (hr : (sys.turn inp).revoke = true) :
    ∃ q, sys.live = some q ∧ q.request.cacheable = sys.lu.l2IsCacheable := by
  have hheld : sys.lu.held = some ⟨sys.lu.l2IsCacheable, sys.lu.l2Addr, luSize sys.lu.l2RevPack⟩ := by
    change (!_ && sys.lu.l2RevPack.enable && !sys.lu.l2RevPack.hasException) = true at hr
    rw [Bool.and_assoc, Bool.and_eq_true] at hr
    exact if_pos hr.2
  rw [← h.held, Option.map_eq_some_iff] at hheld
  obtain ⟨q, hq, hreq⟩ := hheld
  exact ⟨q, hq, by rw [hreq]⟩

/-- On a bus on which the second level has no request nothing is taken back. -/
theorem revoked_idle (h : LoadsOk latency sys) {b : Bool}
    (hb : sys.live.filter (fun q => q.request.cacheable == b) = none) :
    sys.revoked inp b = (sys.bus b).start := by
  refine revoked_other ?_
  by_contra hc
  rw [not_or, Bool.not_eq_false, not_ne_iff] at hc
  obtain ⟨q, hq, hreq⟩ := revoke_owner h hc.1
  rw [hq, Option.filter_some, hreq, hc.2, beq_self_eq_true, if_pos rfl] at hb
  cases hb

theorem clint_quiet (inp : LoadInput) (h : LoadsOk latency sys) :
    (sys.revoked inp false).revokeDataCnt = 0
    ∧ (sys.revoked inp false).dataValue = none := by
  have hclint := h.clint
  cases hl : sys.live.filter (!·.request.cacheable) with
  | none =>
    rw [hl] at hclint
    have hrev : sys.revoked inp false = (sys.bus false).start := by
      refine revoked_idle h ?_
      rw [← hl]
      refine congrArg (Option.filter · sys.live) (funext fun q => ?_)
      cases q.request.cacheable with
      | true => rfl
      | false => rfl
    cases hclint with
    | idle hc _ => exact ⟨hrev ▸ hc, hrev ▸ rfl⟩
  | some q =>
    rw [hl] at hclint
    cases hclint with
    | there _ _ hc hv =>
      have hrev : sys.revoked inp false = (sys.bus false).start := revoked_there hv
      exact ⟨hrev ▸ hc, hrev ▸ rfl⟩

/-- A load that stalls has a request, and its bus shows nothing. -/
theorem stalls_spec (h : LoadsOk latency sys) (hs : luStalls sys.lu inp.lu sys.shown = true) :
    ∃ q, sys.live = some q ∧ (sys.bus q.request.cacheable).dataValue = none := by
  simp only [luStalls, luAlive, Bool.and_eq_true, Bool.not_eq_true', Option.isNone_iff_eq_none]
    at hs
  obtain ⟨⟨⟨⟨hen, -⟩, -⟩, hex⟩, hshown⟩ := hs
  have hheld : sys.lu.held = some ⟨sys.lu.l2IsCacheable, sys.lu.l2Addr, luSize sys.lu.l2RevPack⟩ :=
    if_pos (by rw [hen, hex]; rfl)
  rw [← h.held, Option.map_eq_some_iff] at hheld
  obtain ⟨q, hq, hreq⟩ := hheld
  refine ⟨q, hq, ?_⟩
  rw [hreq]
  exact Option.map_eq_none_iff.mp hshown

/-- The CLINT keeps nobody waiting. -/
theorem stalls_cacheable (h : LoadsOk latency sys)
    (hs : luStalls sys.lu inp.lu sys.shown = true) :
    ∃ q, sys.live = some q ∧ q.request.cacheable = true ∧ sys.cacheable.dataValue = none := by
  obtain ⟨q, hq, hnone⟩ := stalls_spec h hs
  cases hb : q.request.cacheable with
  | true =>
    rw [hb] at hnone
    exact ⟨q, hq, hb, hnone⟩
  | false =>
    have hclint := h.clint
    simp only [hq, Option.filter_some, hb, Bool.not_false, if_true] at hclint
    rw [hb] at hnone
    cases hclint with
    | there _ _ _ hv =>
      rw [show sys.noncacheable.dataValue = none from hnone] at hv
      cases hv

/-- **The second level's turn**: its load waits on, or nobody waits any more. -/
theorem level2_spec (inp : LoadInput) (h : LoadsOk latency sys) :
    (∃ q, Waits latency sys inp q ∧ luStalls sys.lu inp.lu sys.shown = true)
      ∨ (Quiet latency sys inp ∧ luStalls sys.lu inp.lu sys.shown = false) := by
  obtain ⟨hc, hcv⟩ := clint_quiet inp h
  have hmem := h.memory
  cases hl : sys.live.filter (·.request.cacheable) with
  | none =>
    right
    rw [hl] at hmem
    have hrev : sys.revoked inp true = (sys.bus true).start := by
      refine revoked_idle h ?_
      rw [← hl]
      refine congrArg (Option.filter · sys.live) (funext fun q => ?_)
      cases q.request.cacheable with
      | true => rfl
      | false => rfl
    cases hmem with
    | idle hs _ =>
      refine ⟨⟨hrev ▸ ⟨hs.length, hs.count⟩, hrev ▸ rfl, hc, hcv⟩, ?_⟩
      rw [Bool.eq_false_iff]
      intro hstall
      obtain ⟨q, hq, hb, -⟩ := stalls_cacheable h hstall
      rw [hq, Option.filter_some, if_pos hb] at hl
      cases hl
  | some q =>
    obtain ⟨hq, hb⟩ := Option.filter_eq_some_iff.mp hl
    rw [hl] at hmem
    have hheld := h.held
    rw [hq, Option.map_some] at hheld
    obtain ⟨hen, hex, hreq⟩ := LuState.held_eq_some hheld.symm
    have hsel : sys.lu.l2IsCacheable = true := by rw [← hb, hreq]
    cases hmem with
    | there _ _ hs hv =>
      right
      have hrev : sys.revoked inp true = (sys.bus true).start := revoked_there hv
      refine ⟨⟨hrev ▸ ⟨hs.length, hs.count⟩, hrev ▸ rfl, hc, hcv⟩, ?_⟩
      rw [Bool.eq_false_iff]
      intro hstall
      obtain ⟨q', -, -, hnone⟩ := stalls_cacheable h hstall
      rw [hnone] at hv
      cases hv
    | queued _ hw hqueued =>
      have hshown : sys.shown = none := by
        rw [LoadSystem.shown, hsel]
        exact Option.map_eq_none_iff.mpr hqueued.empty
      have hstall : luStalls sys.lu inp.lu sys.shown = luAlive sys.lu inp.lu := by
        rw [luStalls, hex, hshown]
        exact (Bool.and_true _).trans (Bool.and_true _)
      have hrevoke : (sys.turn inp).revoke = !luAlive sys.lu inp.lu := by
        change (!_ && sys.lu.l2RevPack.enable && !sys.lu.l2RevPack.hasException) = _
        rw [hen, hex]
        exact (Bool.and_true _).trans (Bool.and_true _)
      rw [hstall]
      obtain ⟨rest, hreads, hlen, hcount⟩ := hqueued.place
      cases ha : luAlive sys.lu inp.lu with
      | true =>
        left
        rw [ha] at hrevoke
        have hrev : sys.revoked inp true = (sys.bus true).start := revoked_other (.inl hrevoke)
        exact ⟨q, ⟨hq, hb, hw, hrev ▸ ⟨rfl, rest, hreads, hlen, hcount⟩, hc, hcv⟩, rfl⟩
      | false =>
        right
        rw [ha] at hrevoke
        -- its request is one more that is to be swallowed
        have hrev : sys.revoked inp true
            = ⟨none, none, sys.cacheable.revokeDataCnt + 1⟩ := by
          unfold LoadSystem.revoked DataBus.revokeDataRequest
          rw [hrevoke, hsel]
          change (if (sys.cacheable.dataValue.isNone) = true then _ else _) = _
          rw [hqueued.empty]
          rfl
        refine ⟨⟨⟨?_, ?_⟩, by rw [hrev], hc, hcv⟩, rfl⟩
        · rw [hreads, List.length_append, List.length_replicate, List.length_cons]
          omega
        · rw [hrev, hreads, waiting_append, waiting_replicate, waiting_some, hcount]
          exact Nat.zero_add _

/-! ## What the first level asks for -/

/-- A slave whose range is made of whole words refuses no aligned access inside. -/
theorem SlaveInfo.check_of_aligned {s : SlaveInfo} {addr : Word} {k : Nat} (hk : k ≤ 2)
    (hbase : s.base.toNat % 4 = 0) (hsize : s.size % 4 = 0)
    (hend : s.base.toNat + s.size < 2 ^ 32) (hm : s.maps addr false = true)
    (ha : checkAlign addr (2 ^ k) = true) : s.check (s.offset addr) (2 ^ k) = true := by
  have hlimit : (s.base + BitVec.ofNat 32 s.size).toNat = s.base.toNat + s.size := by
    rw [BitVec.toNat_add, BitVec.toNat_ofNat, Nat.add_mod_mod]
    exact Nat.mod_eq_of_lt hend
  simp only [SlaveInfo.maps, Bool.and_eq_true, decide_eq_true_eq] at hm
  obtain ⟨⟨hlo, hhi⟩, -⟩ := hm
  rw [BitVec.lt_def, hlimit] at hhi
  have hoffset : (s.offset addr).toNat = addr.toNat - s.base.toNat := BitVec.toNat_sub_of_le hlo
  have hle : s.base.toNat ≤ addr.toNat := hlo
  rw [checkAlign_pow _ k (by omega)] at ha
  unfold SlaveInfo.check
  rw [Bool.and_eq_true, Bool.and_eq_true, decide_eq_true_eq, decide_eq_true_eq,
    checkAlign_pow _ k (by omega), hoffset]
  rcases (by omega : k = 0 ∨ k = 1 ∨ k = 2) with rfl | rfl | rfl
  · omega
  · omega
  · omega

theorem luSize_pow (rev : ReadregExecutePack) : ∃ k ≤ 2, luSize rev = 2 ^ k := by
  unfold luSize
  split
  · rename_i op _
    cases op with
    | lb => exact ⟨0, by decide, rfl⟩
    | lbu => exact ⟨0, by decide, rfl⟩
    | lh => exact ⟨1, by decide, rfl⟩
    | lhu => exact ⟨1, by decide, rfl⟩
    | lw => exact ⟨2, by decide, rfl⟩
  · exact ⟨2, by decide, rfl⟩

/-- **A request is aligned**, so that the slave that it belongs to accepts it. -/
theorem request_accepted {lu : LuState} {inp : LuInput} {value : Option Word} {q : LuRequest}
    (h : (luRun lu inp value).request = some q) :
    (memorySlave.maps q.addr false = true →
      memorySlave.check (memorySlave.offset q.addr) q.size = true)
    ∧ (clintSlave.maps q.addr false = true →
      clintSlave.check (clintSlave.offset q.addr) q.size = true) := by
  obtain ⟨rev, -, hrev⟩ := Option.bind_eq_some_iff.mp
    (show (luAccepted inp (luStalls lu inp value)).bind luRequest = some q from h)
  unfold luRequest at hrev
  split at hrev
  · rename_i hc
    rw [Bool.and_eq_true] at hc
    obtain ⟨k, hk, hsize⟩ := luSize_pow rev
    rw [hsize] at hc
    cases hrev
    dsimp only
    rw [hsize]
    exact ⟨fun hm => SlaveInfo.check_of_aligned hk (by decide) (by decide) (by decide) hm hc.2,
      fun hm => SlaveInfo.check_of_aligned hk (by decide) (by decide) (by decide) hm hc.2⟩
  · cases hrev

/-! ## The step -/

theorem MemoryBus.congr {reads reads' : List (Option Answer)} {bus bus' : DataBus Answer}
    {live : Option LiveRequest} (h : MemoryBus latency reads bus live) (hr : reads' = reads)
    (hv : bus'.dataValue = bus.dataValue) (hc : bus'.revokeDataCnt = bus.revokeDataCnt) :
    MemoryBus latency reads' bus' live := by
  subst hr
  cases h with
  | idle hs he => exact .idle ⟨hs.length, hs.count.trans hc.symm⟩ (hv.trans he)
  | queued q hw hb =>
    obtain ⟨rest, hreads, hlen, hcount⟩ := hb.place
    exact .queued q hw ⟨hv.trans hb.empty, rest, hreads, hlen, hcount.trans hc.symm⟩
  | there q ha hs he => exact .there q ha ⟨hs.length, hs.count.trans hc.symm⟩ (hv.trans he)

/-- A write is nothing to the reading side. -/
theorem cacheableWrite_reads {α : Type} (slave : MemorySlave α) (bus : DataBus α) (addr : Word)
    (size : Nat) (value : Word) :
    (cacheableWrite slave bus addr size value).1.reads = slave.reads
      ∧ (cacheableWrite slave bus addr size value).2.dataValue = bus.dataValue
      ∧ (cacheableWrite slave bus addr size value).2.revokeDataCnt = bus.revokeDataCnt := by
  unfold cacheableWrite
  split
  · split
    · exact ⟨rfl, rfl, rfl⟩
    · exact ⟨rfl, rfl, rfl⟩
  · exact ⟨rfl, rfl, rfl⟩

/-- The reading side after a cycle is as `run_post` leaves it. -/
theorem act_memory {live : Option LiveRequest}
    (h : MemoryBus latency ((sys.asked inp).1.runPost (sys.asked inp).2.1).1.reads
      ((sys.asked inp).1.runPost (sys.asked inp).2.1).2 live) :
    MemoryBus latency (sys.act inp).memory.reads (sys.act inp).cacheable live := by
  unfold LoadSystem.act
  dsimp only
  cases inp.write with
  | none => exact h
  | some w =>
    obtain ⟨hr, hv, hc⟩ := cacheableWrite_reads
      ((sys.asked inp).1.runPost (sys.asked inp).2.1).1
      ((sys.asked inp).1.runPost (sys.asked inp).2.1).2 w.1 w.2.1 w.2.2
    exact h.congr hr hv hc

theorem act_head : ∃ t, (sys.act inp).memory.reads = none :: t := by
  obtain ⟨hr, -, -⟩ := (sys.asked inp).1.runPost_reads (sys.asked inp).2.1
  unfold LoadSystem.act
  dsimp only
  cases inp.write with
  | none => exact ⟨_, hr⟩
  | some w => exact ⟨_, (cacheableWrite_reads _ _ _ _ _).1.trans hr⟩

/-- **The load waits on.** -/
theorem loadsOk_waits (h : LoadsOk latency sys) {q : LiveRequest} (hw : Waits latency sys inp q)
    (hs : luStalls sys.lu inp.lu sys.shown = true) : LoadsOk latency (sys.act inp) := by
  obtain ⟨hreq, -, hheld⟩ := luRun_of_stalls hs
  have hasked : sys.asked inp = (sys.memory, sys.revoked inp true, sys.revoked inp false) := by
    unfold LoadSystem.asked LoadSystem.turn
    rw [hreq]
  have hlive : (sys.act inp).live = some { q with age := q.age + 1 } := by
    change sys.liveAfter inp = _
    unfold LoadSystem.liveAfter LoadSystem.turn
    rw [hreq]
    dsimp only
    rw [luRun_stalls, hs, if_pos rfl, hw.live]
    rfl
  refine ⟨?_, act_head, act_memory ?_, ?_⟩
  · rw [hlive]
    change some q.request = (luRun sys.lu inp.lu sys.shown).next.held
    rw [hheld, ← h.held, hw.live]
    rfl
  · rw [hlive, hasked, Option.filter_some, if_pos hw.cacheable]
    rcases hw.memory.runPost with ⟨-, hb⟩ | ⟨hn, hset, hv⟩
    · exact .queued _ hw.wait ⟨hb.empty, hb.place⟩
    · exact .there _ (hn.trans hw.wait.symm) hset hv
  · rw [hlive, Option.filter_some]
    simp only [hw.cacheable, Bool.not_true, Bool.false_eq_true, if_false]
    change ClintBus latency (sys.asked inp).2.2 none
    rw [hasked]
    exact .idle hw.clint hw.clintEmpty

/-- **Nobody waits, and the first level asks for nothing.** -/
theorem loadsOk_silent (hq : Quiet latency sys inp)
    (hs : luStalls sys.lu inp.lu sys.shown = false) (hreq : (sys.turn inp).request = none) :
    LoadsOk latency (sys.act inp) := by
  have hasked : sys.asked inp = (sys.memory, sys.revoked inp true, sys.revoked inp false) := by
    unfold LoadSystem.asked
    rw [hreq]
  have hlive : (sys.act inp).live = none := by
    change sys.liveAfter inp = _
    unfold LoadSystem.liveAfter
    rw [hreq]
    dsimp only
    unfold LoadSystem.turn
    rw [luRun_stalls, hs]
    rfl
  obtain ⟨hset, hv⟩ := hq.memory.runPost
  refine ⟨?_, act_head, act_memory ?_, ?_⟩
  · rw [hlive]
    exact hreq.symm.trans (luRun_of_not_stalls hs).symm
  · rw [hlive, hasked]
    exact .idle hset (hv.trans hq.memoryEmpty)
  · rw [hlive]
    change ClintBus latency (sys.asked inp).2.2 none
    rw [hasked]
    exact .idle hq.clint hq.clintEmpty

/-- The load whose request this cycle makes. -/
def LoadSystem.asking (sys : LoadSystem) (inp : LoadInput) (q : LuRequest) : LiveRequest :=
  ⟨sys.issued, q, q.asks sys.memory.mem inp.clint, 0⟩

theorem live_asking {q : LuRequest} (hreq : (sys.turn inp).request = some q) :
    (sys.act inp).live = some (sys.asking inp q) := by
  change sys.liveAfter inp = _
  unfold LoadSystem.liveAfter
  rw [hreq]
  rfl

/-- **Nobody waits, and the first level asks on the bus of the memory.** -/
theorem loadsOk_cacheable (h : LoadsOk latency sys) (hq : Quiet latency sys inp)
    (hs : luStalls sys.lu inp.lu sys.shown = false) {q : LuRequest}
    (hreq : (sys.turn inp).request = some q) (hb : q.cacheable = true) :
    LoadsOk latency (sys.act inp) := by
  have hlive := live_asking hreq
  have hasked : sys.asked inp = ((cacheableRead (sys.issued, ·) sys.memory (sys.revoked inp true)
      q.addr q.size).1, (cacheableRead (sys.issued, ·) sys.memory (sys.revoked inp true)
      q.addr q.size).2, sys.revoked inp false) := by
    unfold LoadSystem.asked
    rw [hreq]
    dsimp only
    rw [if_pos hb]
  refine ⟨?_, act_head, act_memory ?_, ?_⟩
  · rw [hlive]
    exact hreq.symm.trans (luRun_of_not_stalls hs).symm
  · rw [hlive, hasked, Option.filter_some,
      if_pos (show (sys.asking inp q).request.cacheable = true from hb)]
    unfold cacheableRead
    by_cases hm : memorySlave.maps q.addr false = true
    · rw [if_pos hm, if_pos ((request_accepted hreq).1 hm)]
      have hwait : q.wait latency = latency := by rw [LuRequest.wait, hb, hm]; rfl
      obtain ⟨t, ht⟩ := h.head
      have hlen := hq.memory.length
      have hcount := hq.memory.count
      rw [ht, List.length_cons] at hlen
      rw [ht, waiting_none] at hcount
      have hqueued : Queued latency (sys.asking inp q) 0
          (sys.memory.read (sys.issued, ·) (memorySlave.offset q.addr).toNat q.size).reads
          (sys.revoked inp true) := by
        refine ⟨hq.memoryEmpty, t, ?_, by omega, hcount⟩
        change some _ :: sys.memory.reads.tail = some (sys.issued, q.asks sys.memory.mem inp.clint) :: t
        rw [ht, LuRequest.asks, if_pos hb, if_pos hm]
        rfl
      rcases hqueued.runPost with ⟨-, hb'⟩ | ⟨hn, hset, hv⟩
      · exact .queued _ hwait hb'
      · exact .there _ (hn.trans hwait.symm) hset hv
    · rw [if_neg hm]
      have hwait : q.wait latency = 0 := by
        rw [LuRequest.wait, Bool.eq_false_iff.mpr hm, Bool.and_false]
        rfl
      have hset : Settled latency sys.memory.reads
          { sys.revoked inp true with dataValue := some (sys.issued, (0 : Word)) } :=
        ⟨hq.memory.length, hq.memory.count⟩
      obtain ⟨hset', hv⟩ := hset.runPost
      refine .there _ hwait.symm hset' (hv.trans ?_)
      change _ = some (sys.issued, q.asks sys.memory.mem inp.clint)
      rw [LuRequest.asks, if_pos hb, if_neg hm]
  · rw [hlive, Option.filter_some]
    change ClintBus latency (sys.asked inp).2.2 (if (!q.cacheable) = true then _ else none)
    rw [hasked, hb]
    exact .idle hq.clint hq.clintEmpty

/-- **Nobody waits, and the first level asks on the bus of the CLINT**, not for a byte or a
halfword of it. -/
theorem loadsOk_noncacheable (hq : Quiet latency sys inp)
    (hs : luStalls sys.lu inp.lu sys.shown = false) {q : LuRequest}
    (hreq : (sys.turn inp).request = some q) (hb : q.cacheable = false) (hn : ¬ q.NarrowClint) :
    LoadsOk latency (sys.act inp) := by
  have hlive := live_asking hreq
  have hasked : sys.asked inp = (sys.memory, sys.revoked inp true,
      noncacheableRead (sys.issued, ·) inp.clint (sys.revoked inp false) q.addr q.size) := by
    unfold LoadSystem.asked
    rw [hreq]
    dsimp only
    rw [hb]
    rfl
  obtain ⟨hset, hv⟩ := hq.memory.runPost
  refine ⟨?_, act_head, act_memory ?_, ?_⟩
  · rw [hlive]
    exact hreq.symm.trans (luRun_of_not_stalls hs).symm
  · rw [hlive, hasked, Option.filter_some]
    change MemoryBus latency _ _ (if q.cacheable = true then _ else none)
    rw [hb]
    exact .idle hset (hv.trans hq.memoryEmpty)
  · rw [hlive, Option.filter_some]
    change ClintBus latency (sys.asked inp).2.2
      (if (!q.cacheable) = true then some (sys.asking inp q) else none)
    have hwait : q.wait latency = 0 := by
      rw [LuRequest.wait, hb]
      rfl
    have hasks : (sys.asking inp q).answer = (sys.issued,
        if clintSlave.maps q.addr false then inp.clint.read32 (clintSlave.offset q.addr).toNat
        else 0) := by
      change (sys.issued, q.asks sys.memory.mem inp.clint) = _
      rw [LuRequest.asks, hb]
      rfl
    rw [hasked, hb]
    unfold noncacheableRead
    by_cases hm : clintSlave.maps q.addr false = true
    · have hsize : q.size = 4 := by
        by_contra hne
        exact hn ⟨hb, hm, hne⟩
      have hzero : ¬ (sys.revoked inp false).revokeDataCnt > 0 := by
        rw [hq.clint]
        exact Nat.lt_irrefl 0
      have haccept : (clintSlave.check (clintSlave.offset q.addr) q.size && q.size == 4) = true := by
        rw [(request_accepted hreq).2 hm, hsize]
        rfl
      rw [if_pos hm] at hasks ⊢
      rw [if_pos haccept, DataBus.setDataValue, if_neg hzero]
      exact .there _ hwait.symm hq.clint (congrArg some hasks.symm)
    · rw [if_neg hm] at hasks ⊢
      exact .there _ hwait.symm hq.clint (congrArg some hasks.symm)

/-- **A cycle keeps loads and answers paired.** -/
theorem loadsOk_step (h : LoadsOk latency sys)
    (hn : ∀ q, (sys.turn inp).request = some q → ¬ q.NarrowClint) :
    LoadsOk latency (sys.act inp) := by
  rcases level2_spec inp h with ⟨q, hw, hs⟩ | ⟨hq, hs⟩
  · exact loadsOk_waits h hw hs
  · cases hreq : (sys.turn inp).request with
    | none => exact loadsOk_silent hq hs hreq
    | some q =>
      cases hb : q.cacheable with
      | true => exact loadsOk_cacheable h hq hs hreq hb
      | false => exact loadsOk_noncacheable hq hs hreq hb (hn q hreq)

/-- The load unit asks for no byte or halfword of the CLINT in this cycle. -/
def LoadInput.Wide (sys : LoadSystem) (inp : LoadInput) : Prop :=
  ∀ q, (sys.turn inp).request = some q → ¬ q.NarrowClint

theorem loadsOk_reachable {mem : Mem} (h : LoadRun (fun sys inp => inp.Wide sys) mem latency sys) :
    LoadsOk latency sys := by
  induction h with
  | init => exact loadsOk_init mem latency
  | cycle inp _ hn ih => exact loadsOk_step ih hn

/-! ## Pairing -/

/-- What the bus of a request shows is the answer to it, once it shows anything. -/
theorem LoadsOk.shows (h : LoadsOk latency sys) {q : LiveRequest} (hq : sys.live = some q) :
    ((sys.bus q.request.cacheable).dataValue = none ∧ q.age < q.request.wait latency)
      ∨ (sys.bus q.request.cacheable).dataValue = some q.answer := by
  cases hb : q.request.cacheable with
  | true =>
    have hmem := h.memory
    simp only [hq, Option.filter_some, hb, if_true] at hmem
    cases hmem with
    | queued _ hw hqueued =>
      obtain ⟨rest, -, hlen, -⟩ := hqueued.place
      exact .inl ⟨hqueued.empty, by omega⟩
    | there _ _ _ hv => exact .inr hv
  | false =>
    have hclint := h.clint
    simp only [hq, Option.filter_some, hb, Bool.not_false, if_true] at hclint
    cases hclint with
    | there _ _ _ hv => exact .inr hv

/-- **Where buses and load unit agree**, every load gets its own answer. -/
theorem LoadsOk.paired (hok : LoadsOk latency sys) : sys.Paired latency := by
  have hknown : sys.lu.l2RevPack.enable = true → sys.lu.l2RevPack.hasException = false →
      ∃ q, sys.live = some q
        ∧ q.request = ⟨sys.lu.l2IsCacheable, sys.lu.l2Addr, luSize sys.lu.l2RevPack⟩ := by
    intro hen hex
    have hheld := hok.held
    rw [LuState.held, if_pos (by rw [hen, hex]; rfl), Option.map_eq_some_iff] at hheld
    exact hheld
  refine ⟨hknown, ?_, ?_, ?_, ?_⟩
  · intro q hq a ha
    rcases hok.shows hq with ⟨hnone, -⟩ | hv
    · rw [hnone] at ha
      cases ha
    · rw [hv] at ha
      exact (Option.some.inj ha).symm
  · intro inp hen hex
    unfold luSend at hen hex ⊢
    dsimp only at hen hex ⊢
    by_cases ha : luAlive sys.lu inp = true
    · rw [if_pos ha] at hen hex ⊢
      by_cases hx : sys.lu.l2RevPack.hasException = true
      · rw [if_pos hx] at hex
        change sys.lu.l2RevPack.hasException = false at hex
        rw [hex] at hx
        cases hx
      · rw [if_neg hx] at hen hex ⊢
        have hen' : sys.lu.l2RevPack.enable = true := by
          unfold luAlive at ha
          rw [Bool.and_assoc, Bool.and_eq_true] at ha
          exact ha.1
        obtain ⟨q, hq, hreq⟩ := hknown hen' (Bool.eq_false_iff.mpr hx)
        refine ⟨q, hq, ?_⟩
        rcases hok.shows hq with ⟨hnone, -⟩ | hv
        · have hshown : sys.shown = none := by
            rw [hreq] at hnone
            exact Option.map_eq_none_iff.mpr hnone
          rw [hshown] at hen
          cases hen
        · have hshown : sys.shown = some q.value := by
            rw [hreq] at hv
            rw [LoadSystem.shown, hv]
            rfl
          rw [hshown]
    · rw [if_neg ha] at hen
      cases hen
  · refine ⟨?_, ?_⟩
    · change _ ≤ waiting sys.memory.reads
      have hmem := hok.memory
      generalize sys.live.filter (·.request.cacheable) = live at hmem
      cases hmem with
      | idle hset _ => exact hset.count.symm.le
      | queued q _ hqueued =>
        obtain ⟨rest, hreads, -, hcount⟩ := hqueued.place
        rw [hreads, waiting_append, waiting_some, hcount]
        omega
      | there q _ hset _ => exact hset.count.symm.le
    · have hclint := hok.clint
      generalize sys.live.filter (!·.request.cacheable) = live at hclint
      cases hclint with
      | idle hc _ => exact hc.le
      | there q _ hc _ => exact hc.le
  · intro q hq hage
    rcases hok.shows hq with ⟨-, hlt⟩ | hv
    · omega
    · rw [hv]
      rfl

/-- **Every load gets its own answer**, in every run in which the load unit asks for no byte or
halfword of the CLINT. -/
theorem paired_of_wide {mem : Mem}
    (h : LoadRun (fun sys inp => inp.Wide sys) mem latency sys) : sys.Paired latency :=
  (loadsOk_reachable h).paired

/-- **A byte or a halfword of the CLINT breaks the pairing at once**: the CLINT does not take any
time, and there is no answer. -/
theorem not_paired_of_narrow (h : LoadsOk latency sys) {q : LuRequest}
    (hreq : (sys.turn inp).request = some q) (hn : q.NarrowClint) :
    ¬ (sys.act inp).Paired latency := by
  intro hp
  obtain ⟨hb, hm, hsize⟩ := hn
  have hwait : q.wait latency = 0 := by
    rw [LuRequest.wait, hb]
    rfl
  have hthere := hp.answered _ (live_asking hreq) (show q.wait latency ≤ 0 from hwait.le)
  have hbus : (sys.act inp).bus q.cacheable = sys.revoked inp false := by
    rw [hb]
    change (sys.asked inp).2.2 = _
    unfold LoadSystem.asked
    rw [hreq]
    dsimp only
    rw [hb, if_neg Bool.false_ne_true, noncacheableRead, if_pos hm, if_neg]
    rw [Bool.and_eq_true, beq_iff_eq]
    exact fun hc => hsize hc.2
  rw [show (sys.asking inp q).request = q from rfl, hbus, (clint_quiet inp h).2] at hthere
  cases hthere

/-- The system after a script. -/
def LoadSystem.play (script : List LoadInput) (sys : LoadSystem) : LoadSystem :=
  script.foldl LoadSystem.act sys

theorem LoadSystem.play_concat (past : List LoadInput) (inp : LoadInput) (sys : LoadSystem) :
    sys.play (past ++ [inp]) = (sys.play past).act inp :=
  List.foldl_concat ..

/-- **A run keeps loads and answers paired exactly as long as** it asks for no byte or halfword of
the CLINT. -/
theorem paired_iff_wide (mem : Mem) (latency : Nat) (script : List LoadInput) :
    (∀ past, past <+: script → ((LoadSystem.init mem latency).play past).Paired latency)
      ↔ ∀ past inp, past ++ [inp] <+: script →
        inp.Wide ((LoadSystem.init mem latency).play past) := by
  constructor
  · intro hpaired
    -- up to the first such request the buses and the load unit agree
    have hstep : ∀ past inp, past ++ [inp] <+: script →
        LoadsOk latency ((LoadSystem.init mem latency).play past) →
        inp.Wide ((LoadSystem.init mem latency).play past) := by
      intro past inp hpast hok q hreq hn
      refine not_paired_of_narrow hok hreq hn ?_
      rw [← LoadSystem.play_concat]
      exact hpaired _ hpast
    have hok : ∀ past, past <+: script →
        LoadsOk latency ((LoadSystem.init mem latency).play past) := by
      intro past
      induction past using List.reverseRecOn with
      | nil => exact fun _ => loadsOk_init mem latency
      | append_singleton past inp ih =>
        intro hpast
        have hbefore := ih ((List.prefix_append past [inp]).trans hpast)
        rw [LoadSystem.play_concat]
        exact loadsOk_step hbefore (hstep past inp hpast hbefore)
    exact fun past inp hpast => hstep past inp hpast
      (hok past ((List.prefix_append past [inp]).trans hpast))
  · intro hwide past hpast
    refine LoadsOk.paired ?_
    induction past using List.reverseRecOn with
    | nil => exact loadsOk_init mem latency
    | append_singleton past inp ih =>
      rw [LoadSystem.play_concat]
      exact loadsOk_step (ih ((List.prefix_append past [inp]).trans hpast)) (hwide past inp hpast)

/-! ## Loads on their way -/

/-- A load of the address, as `readreg` hands it over. -/
def loadOf (op : LuOp) (addr : Word) : LoadInput :=
  { lu := { rev := some { enable := true, valid := true, opUnit := .lu, subOp := .lu op,
                          src1Value := addr } } }

instance (sys : LoadSystem) (inp : LoadInput) : Decidable (inp.Wide sys) :=
  match h : (sys.turn inp).request with
  | none => .isTrue fun q hq => by rw [h] at hq; cases hq
  | some q =>
      if hn : q.NarrowClint then .isFalse fun hw => hw q h hn
      else .isTrue fun q' hq => by
        rw [h] at hq
        cases hq
        exact hn

/-- A byte of the CLINT is asked for, and a word of it after the byte has been squashed. -/
def byteThenWord : List LoadInput :=
  [loadOf .lb 0x20000000, { lu := { commitFlush := true } }, loadOf .lw 0x2000bff8]

/-- **The byte is never answered, and once it is squashed the answer to the word is swallowed in
its place.** -/
theorem clintByte_unanswered :
    (∃ sys, LoadRun (fun _ _ => True) (fun _ => 0) 10 sys
      ∧ sys.live.map (·.request) = some ⟨false, 0x20000000, 1⟩ ∧ ¬ sys.Paired 10)
    ∧ ∃ sys, LoadRun (fun _ _ => True) (fun _ => 0) 10 sys
      ∧ sys.live.map (·.request) = some ⟨false, 0x2000bff8, 4⟩ ∧ ¬ sys.Paired 10 := by
  have hbad : ∀ sys : LoadSystem, (sys.live.map fun q => decide (q.request.wait 10 ≤ q.age)
      && (sys.bus q.request.cacheable).dataValue.isNone) = some true → ¬ sys.Paired 10 := by
    intro sys h hp
    obtain ⟨q, hq, hlate⟩ := Option.map_eq_some_iff.mp h
    rw [Bool.and_eq_true, decide_eq_true_eq, Option.isNone_iff_eq_none] at hlate
    have hthere := hp.answered q hq hlate.1
    rw [hlate.2] at hthere
    cases hthere
  refine ⟨⟨(LoadSystem.init (fun _ => 0) 10).play (byteThenWord.take 1), ?_, by decide +kernel,
      hbad _ (by decide +kernel)⟩,
    ⟨(LoadSystem.init (fun _ => 0) 10).play byteThenWord, ?_, by decide +kernel,
      hbad _ (by decide +kernel)⟩⟩
  · exact .cycle _ .init trivial
  · exact .cycle _ (.cycle _ (.cycle _ .init trivial) trivial) trivial

/-- A byte of the memory that is squashed, and a word right behind it. -/
def squashedThenLoaded : List LoadInput :=
  [loadOf .lb 0x80000001, { lu := { commitFlush := true } }, loadOf .lw 0x80000000, {}, {}]

theorem paired_squashedThenLoaded :
    ((LoadSystem.init (fun _ => 7) 2).play squashedThenLoaded).shown = some 0x07070707
      ∧ ((LoadSystem.init (fun _ => 7) 2).play squashedThenLoaded).Paired 2 := by
  have hrun : LoadRun (fun sys inp => inp.Wide sys) (fun _ => 7) 2
      ((LoadSystem.init (fun _ => 7) 2).play squashedThenLoaded) := by
    refine .cycle _ (.cycle _ (.cycle _ (.cycle _ (.cycle _ .init ?_) ?_) ?_) ?_) ?_
    all_goals decide +kernel
  exact ⟨by decide +kernel, paired_of_wide hrun⟩

end DreamCore
