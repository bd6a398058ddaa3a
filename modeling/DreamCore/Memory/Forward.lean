import DreamCore.Component.Memory
import DreamCore.Lib.Loops
import DreamCore.Memory.Overlap
import DreamCore.Pipeline.Lu

/-!
# What a load is given

A load asks the memory, the retired store buffer and the store buffer in the same
cycle, and puts the answers over one another: the store buffer over the retired
store buffer over the memory. What it should see is simpler to say. Take the
memory, do the stores that have retired, do the stores that are older than the
load and complete, and read.

The merges work on masks, this file on single bytes: a byte of the load is what
the last store that covers it says. The two agree as long as the range tests find
that store. Where one of them overlooks it, because it ends at the top of the
address space, the load sees through it.
-/

namespace DreamCore

open Ring Bytes Loops

/-- A store as a load meets it in a buffer. -/
structure Laid where
  addr : Word
  size : Word
  data : Word

namespace Laid

/-- The store writes byte `i`. -/
def covers (s : Laid) (i : Nat) : Bool :=
  decide (s.addr.toNat ≤ i) && decide (i < s.addr.toNat + s.size.toNat)

/-- What the store writes to byte `i`. -/
def byteAt (s : Laid) (i : Nat) : Option (BitVec 8) :=
  if s.covers i then some (byte s.data (i - s.addr.toNat)) else none

/-- The memory after the store. -/
def apply (m : Mem) (s : Laid) : Mem := m.write s.addr.toNat s.size.toNat s.data

theorem covers_iff {s : Laid} {i : Nat} :
    s.covers i = true ↔ s.addr.toNat ≤ i ∧ i < s.addr.toNat + s.size.toNat := by
  rw [covers, Bool.and_eq_true, decide_eq_true_eq, decide_eq_true_eq]

theorem apply_eq (m : Mem) (s : Laid) (i : Nat) : s.apply m i = (s.byteAt i).getD (m i) := by
  simp only [apply, Mem.write, byteAt, ← covers_iff]
  split <;> rfl

/-- **After a row of stores, a byte is what the last one that covers it says.** -/
theorem foldl_apply (l : List Laid) (m : Mem) (i : Nat) :
    l.foldl Laid.apply m i = (l.reverse.findSome? (·.byteAt i)).getD (m i) := by
  induction l using List.reverseRecOn with
  | nil => rfl
  | append_singleton l s ih =>
    rw [List.foldl_append, List.reverse_append]
    show s.apply (l.foldl Laid.apply m) i = ((s :: l.reverse).findSome? (·.byteAt i)).getD (m i)
    rw [apply_eq, ih, List.findSome?_cons]
    cases s.byteAt i <;> rfl

end Laid

/-! ## What the range tests overlook -/

/-- The store buffer's range test overlooks the store: it begins before the load and wraps
around. -/
def storeOverlooks (load : Access) (s : Laid) : Bool :=
  decide (s.addr.toNat < load.addr.toNat ∧ 2 ^ 32 < s.addr.toNat + s.size.toNat)

/-- The retired store buffer's range test overlooks the store: whichever of the two begins
first ends at the top. -/
def retiredOverlooks (load : Access) (s : Laid) : Bool :=
  if s.addr.toNat < load.addr.toNat then decide (2 ^ 32 ≤ s.addr.toNat + s.size.toNat)
  else decide (2 ^ 32 ≤ load.addr.toNat + load.size.toNat)

/-- The interval test overlooks the store: one of the two ends at the top. -/
def overlapOverlooks (load : Access) (s : Laid) : Bool :=
  decide (2 ^ 32 ≤ load.addr.toNat + load.size.toNat)
    || decide (2 ^ 32 ≤ s.addr.toNat + s.size.toNat)

/-- A size an access can have. -/
def SizeOk (size : Word) : Prop := size = 1 ∨ size = 2 ∨ size = 4

theorem SizeOk.bounds {size : Word} (h : SizeOk size) : 0 < size.toNat ∧ size.toNat ≤ 4 := by
  rcases h with h | h | h <;> rw [h] <;> decide

/-- The load and the store have a byte in common. -/
def Access.Meets (load : Access) (s : Laid) : Prop := ∃ i, load.Touches i ∧ s.covers i = true

section Overlooked

variable {load : Access} {s : Laid} (hsize : SizeOk s.size)

/-- The shared range holds the bytes of the load that the store covers. -/
theorem sharedRange_patch {k : Nat} (hk : k < load.size.toNat) :
    rangePatch (sharedRange load.addr.toNat load.size.toNat s.addr.toNat s.size.toNat) s.data k
      = s.byteAt (load.addr.toNat + k) := by
  have hcov := Laid.covers_iff (s := s) (i := load.addr.toNat + k)
  simp only [sharedRange, Laid.byteAt]
  by_cases h₁ : load.addr.toNat ≤ s.addr.toNat ∧ s.addr.toNat < load.addr.toNat + load.size.toNat
  · rw [if_pos h₁]
    simp only [rangePatch, CopyRange.patch, Patch.window]
    by_cases hc : s.covers (load.addr.toNat + k) = true
    · rw [if_pos hc, if_pos (by have := hcov.mp hc; omega)]
      congr 2
      omega
    · rw [if_neg hc, if_neg (fun hr => hc (hcov.mpr (by omega)))]
  · rw [if_neg h₁]
    by_cases h₂ : s.addr.toNat < load.addr.toNat
        ∧ load.addr.toNat < s.addr.toNat + s.size.toNat
    · rw [if_pos h₂]
      simp only [rangePatch, CopyRange.patch, Patch.window]
      by_cases hc : s.covers (load.addr.toNat + k) = true
      · rw [if_pos hc, if_pos (by have := hcov.mp hc; omega)]
        congr 2
        omega
      · rw [if_neg hc, if_neg (fun hr => hc (hcov.mpr (by omega)))]
    · have hc : ¬ s.covers (load.addr.toNat + k) = true := fun hc => by
        have := hcov.mp hc
        omega
      rw [if_neg h₂, if_neg hc]
      rfl

include hsize in
/-- **What the store buffer lets through of a store.** -/
theorem storeRange_patch {k : Nat} (hk : k < load.size.toNat) :
    rangePatch (storeRange load.addr load.size s.addr s.size) s.data k
      = if storeOverlooks load s then none else s.byteAt (load.addr.toNat + k) := by
  have hl := load.size_bounds
  have hs := hsize.bounds
  by_cases hover : storeOverlooks load s = true
  · rw [if_pos hover]
    rw [storeOverlooks, decide_eq_true_eq] at hover
    -- the end of the store has wrapped around, to before the load
    have hlast : (s.addr + s.size - 1).toNat = s.addr.toNat + s.size.toNat - 1 - 2 ^ 32 := by
      rw [BitVec.toNat_sub, BitVec.toNat_add, show (1 : Word).toNat = 1 from rfl]
      have := s.addr.isLt
      omega
    have hlt := load.addr.isLt
    have hnone : storeRange load.addr load.size s.addr s.size = none := by
      simp only [storeRange, ge_iff_le, BitVec.le_def, BitVec.lt_def, hlast]
      rw [if_neg (by omega), if_neg (by omega)]
    rw [hnone]
    rfl
  · rw [if_neg hover]
    rw [storeOverlooks, decide_eq_true_eq] at hover
    rw [storeRange_eq hl.1 hs.1 load.end_le (fun hlt => by omega)]
    exact sharedRange_patch hk

include hsize in
/-- **What the retired store buffer lets through of a store.** -/
theorem retiredRange_patch {k : Nat} (hk : k < load.size.toNat) :
    rangePatch (retiredRange load.addr load.size s.addr s.size) s.data k
      = if retiredOverlooks load s then none else s.byteAt (load.addr.toNat + k) := by
  have hl := load.size_bounds
  have hs := hsize.bounds
  have hle := load.end_le
  have hlt := s.addr.isLt
  have hlt' := load.addr.isLt
  by_cases hover : retiredOverlooks load s = true
  · rw [if_pos hover]
    unfold retiredOverlooks at hover
    have hnone : retiredRange load.addr load.size s.addr s.size = none := by
      simp only [retiredRange, ge_iff_le, gt_iff_lt, BitVec.le_def, BitVec.lt_def,
        BitVec.toNat_add]
      split at hover
      · rw [decide_eq_true_eq] at hover
        rw [if_neg (by omega), if_neg (by omega)]
      · rw [decide_eq_true_eq] at hover
        rw [if_neg (by omega), if_neg (by omega)]
    rw [hnone]
    rfl
  · rw [if_neg hover]
    unfold retiredOverlooks at hover
    have hfree : (load.addr.toNat ≤ s.addr.toNat → load.addr.toNat + load.size.toNat < 2 ^ 32)
        ∧ (s.addr.toNat < load.addr.toNat → s.addr.toNat + s.size.toNat < 2 ^ 32) := by
      split at hover
      · rw [decide_eq_true_eq] at hover
        omega
      · rw [decide_eq_true_eq] at hover
        omega
    rw [retiredRange_eq hl.1 hs.1 hfree.1 hfree.2]
    exact sharedRange_patch hk

include hsize in
/-- **The interval test finds the stores that meet the load**, unless one of the two ends at
the top. -/
theorem overlap_meets : overlap s.addr s.size load.addr load.size = true
    ↔ load.Meets s ∧ overlapOverlooks load s = false := by
  have hl := load.size_bounds
  have hs := hsize.bounds
  have hle := load.end_le
  have hlt := s.addr.isLt
  rw [overlap_iff, BitVec.toNat_add, BitVec.toNat_add, overlapOverlooks, Bool.or_eq_false_iff,
    decide_eq_false_iff_not, decide_eq_false_iff_not]
  constructor
  · intro h
    refine ⟨⟨max s.addr.toNat load.addr.toNat, ⟨by omega, by omega⟩, ?_⟩, by omega, by omega⟩
    rw [Laid.covers_iff]
    omega
  · rintro ⟨⟨i, ⟨h₁, h₂⟩, hc⟩, h₃, h₄⟩
    rw [Laid.covers_iff] at hc
    omega

end Overlooked

/-! ## A row of merges -/

/-- What a row of patches leaves in byte `k`: what the last one that covers it says. -/
theorem foldl_over {α : Type} (f : α → Patch) (l : List α) (p : Patch) (k : Nat) :
    (l.foldl (fun p s => (f s).over p) p) k = (l.reverse.findSome? (f · k)).or (p k) := by
  induction l using List.reverseRecOn with
  | nil => rfl
  | append_singleton l s ih =>
    rw [List.foldl_append, List.reverse_append]
    show (f s k).or (l.foldl (fun p s => (f s).over p) p k)
      = ((s :: l.reverse).findSome? (f · k)).or (p k)
    rw [ih, List.findSome?_cons]
    cases f s k <;> rfl

/-- A store, and whether a range test finds it. -/
abbrev Found := Laid × Bool

/-- What a store writes to byte `i` as far as it is found. -/
def foundByte (s : Found) (i : Nat) : Option (BitVec 8) := if s.2 then s.1.byteAt i else none

theorem findSome?_congr {α β : Type} {f g : α → Option β} {l : List α} (h : ∀ a ∈ l, f a = g a) :
    l.findSome? f = l.findSome? g := by
  induction l with
  | nil => rfl
  | cons a l ih =>
    rw [List.findSome?_cons, List.findSome?_cons, h a (List.mem_cons_self ..),
      ih fun b hb => h b (List.mem_cons_of_mem _ hb)]

/-- **When the last store that covers a byte is found, nothing is lost.** -/
theorem findSome?_found {l : List Found} {i : Nat}
    (h : ∀ s, l.find? (·.1.covers i) = some s → s.2 = true) :
    l.findSome? (foundByte · i) = l.findSome? (·.1.byteAt i) := by
  induction l with
  | nil => rfl
  | cons s l ih =>
    rw [List.findSome?_cons, List.findSome?_cons]
    by_cases hc : s.1.covers i = true
    · rw [foundByte, h s (List.find?_cons_of_pos hc), if_pos rfl]
      rw [Laid.byteAt, if_pos hc]
    · have hnone : s.1.byteAt i = none := if_neg hc
      have hnone' : foundByte s i = none := by
        rw [foundByte, hnone]
        split <;> rfl
      rw [hnone, hnone']
      refine ih fun t ht => h t ?_
      rw [List.find?_cons_of_neg (p := fun s : Found => s.1.covers i) hc, ht]

/-- Ones where a store is overlooked, zeros where it is found. -/
def revealing (s : Found) : Word := if s.2 then 0 else 0xffffffff

theorem byte_revealing (s : Found) {k : Nat} (hk : k < 4) :
    byte (revealing s) k = if s.2 then 0#8 else 255#8 := by
  unfold revealing
  split
  · exact byte_zero k
  · have : k = 0 ∨ k = 1 ∨ k = 2 ∨ k = 3 := by omega
    rcases this with rfl | rfl | rfl | rfl <;> rfl

/-- A covered byte lies within the four of the store. -/
theorem Laid.byteAt_eq {s : Laid} (hs : SizeOk s.size) {i : Nat} (hc : s.covers i = true) :
    s.byteAt i = some (byte s.data (i - s.addr.toNat)) ∧ i - s.addr.toNat < 4 := by
  have hsize := hs.bounds
  refine ⟨if_pos hc, ?_⟩
  rw [covers_iff] at hc
  omega

/-- **When it is overlooked, there is data that shows it**: the overlooked stores bring ones, the
others zeros, and the load does not see the ones. -/
theorem findSome?_revealing {l : List Found} (hs : ∀ s ∈ l, SizeOk s.1.size)
    (hd : ∀ s ∈ l, s.1.data = revealing s) {i : Nat} {s : Found}
    (h : l.find? (·.1.covers i) = some s) (hf : s.2 = false) :
    l.findSome? (·.1.byteAt i) = some 255#8
      ∧ (l.findSome? (foundByte · i)).getD 0#8 = 0#8 := by
  have hfound : ∀ l : List Found, (∀ s ∈ l, SizeOk s.1.size) → (∀ s ∈ l, s.1.data = revealing s) →
      (l.findSome? (foundByte · i)).getD 0#8 = 0#8 := by
    intro l hs hd
    induction l with
    | nil => rfl
    | cons t l ih =>
      rw [List.findSome?_cons]
      have ih := ih (fun u hu => hs u (List.mem_cons_of_mem _ hu))
        fun u hu => hd u (List.mem_cons_of_mem _ hu)
      by_cases ht : t.2 = true ∧ t.1.covers i = true
      · obtain ⟨hb, hk⟩ := Laid.byteAt_eq (hs t (List.mem_cons_self ..)) ht.2
        rw [foundByte, if_pos ht.1, hb, hd t (List.mem_cons_self ..), byte_revealing t hk,
          if_pos ht.1]
        rfl
      · have hnone : foundByte t i = none := by
          unfold foundByte
          split
          · rename_i h2
            exact if_neg fun hc => ht ⟨h2, hc⟩
          · rfl
        rw [hnone]
        exact ih
  refine ⟨?_, hfound l hs hd⟩
  induction l with
  | nil => cases h
  | cons t l ih =>
    rw [List.findSome?_cons]
    by_cases hc : t.1.covers i = true
    · rw [List.find?_cons_of_pos (p := fun s : Found => s.1.covers i) hc] at h
      cases h
      obtain ⟨hb, hk⟩ := Laid.byteAt_eq (hs s (List.mem_cons_self ..)) hc
      rw [hb, hd s (List.mem_cons_self ..), byte_revealing s hk, hf]
      rfl
    · rw [List.find?_cons_of_neg (p := fun s : Found => s.1.covers i) hc] at h
      have hnone : t.1.byteAt i = none := if_neg hc
      rw [hnone]
      exact ih (fun u hu => hs u (List.mem_cons_of_mem _ hu))
        (fun u hu => hd u (List.mem_cons_of_mem _ hu)) h

/-! ## Putting the answers together -/

/-- One turn of the loop that adds the retired stores. -/
theorem combineByte_shows {retired acc : Word × Word} {p q : Patch} (hr : Shows retired p)
    (hs : Shows acc q) {j : Nat} (hj : j < 4) :
    Shows (combineByte retired acc (8 * j)) (Function.update q j ((q j).or (p j))) := by
  have hmask : ((0xff <<< (8 * j) : Nat) : Word) = lowMask 32 8 <<< (8 * j) := by
    have : j = 0 ∨ j = 1 ∨ j = 2 ∨ j = 3 := by omega
    rcases this with rfl | rfl | rfl | rfl <;> rfl
  have hp := hr.mask_eq_zero (n := 4) rfl hj
  have hq := hs.mask_eq_zero (n := 4) rfl hj
  unfold combineByte
  dsimp only
  rw [hmask]
  split
  · rename_i hc
    have hfree := hq.mp hc.2
    obtain ⟨b, hb⟩ := Option.ne_none_iff_exists'.mp fun hn => hc.1 (hp.mpr hn)
    rw [hfree, Option.none_or]
    exact hr.fill hs j hfree hb
  · rename_i hc
    refine hs.congr fun k _ => ?_
    by_cases hk : k = j
    · subst hk
      rw [Function.update_self]
      cases hqk : q k with
      | some b => rfl
      | none =>
        have hpk : p k = none := by
          by_contra hne
          exact hc ⟨fun h0 => hne (hp.mp h0), hq.mpr hqk⟩
        rw [hpk]
        rfl
    · rw [Function.update_of_ne hk]

/-- **A retired store counts where no younger store has a byte.** -/
theorem combine_shows {retired acc : Word × Word} {p q : Patch} (hr : Shows retired p)
    (hs : Shows acc q) : Shows ([0, 8, 16, 24].foldl (combineByte retired) acc) (q.over p) := by
  have h := combineByte_shows hr (combineByte_shows hr (combineByte_shows hr
    (combineByte_shows hr hs (j := 0) (by omega)) (j := 1) (by omega)) (j := 2) (by omega))
    (j := 3) (by omega)
  refine h.congr fun k hk => ?_
  have hk : k = 0 ∨ k = 1 ∨ k = 2 ∨ k = 3 := by omega
  rcases hk with rfl | rfl | rfl | rfl <;> simp [Function.update, Patch.over]

/-- A word read from memory holds the bytes there. -/
theorem Mem.byte_read (m : Mem) (addr : Nat) {size k : Nat} (hk : k < size) (hs : size ≤ 4) :
    byte (m.read addr size) k = m (addr + k) := by
  induction size generalizing addr k with
  | zero => omega
  | succ size ih =>
    have hshift := byte_shiftLeft (m.read (addr + 1) size) 1 (k := k) (by omega)
    rw [Nat.mul_one] at hshift
    rw [Mem.read, byte_or, hshift]
    cases k with
    | zero =>
      rw [if_neg (by omega)]
      show 0#8 ||| ((m addr).setWidth 32).extractLsb' 0 8 = m addr
      rw [BitVec.zero_or]
      refine BitVec.eq_of_getLsbD_eq fun j hj => ?_
      have hw : j < 32 := by omega
      simp [hj, hw]
    | succ k =>
      have hnone : byte ((m addr).setWidth 32) (k + 1) = 0#8 := by
        refine BitVec.eq_of_getLsbD_eq fun j hj => ?_
        have hge : 8 ≤ 8 * (k + 1) + j := by omega
        rw [getLsbD_byte, BitVec.getLsbD_setWidth, BitVec.getLsbD_of_ge _ _ hge]
        simp
      rw [if_pos (by omega), hnone, BitVec.or_zero, Nat.add_sub_cancel,
        ih (addr + 1) (by omega) (by omega), Nat.add_assoc, Nat.add_comm 1 k]

/-- Extending a narrow value leaves its bytes alone. -/
theorem byte_signExtend (v : Word) {n k : Nat} (hk : k < n) (hn : n ≤ 4) :
    byte ((v.setWidth (8 * n)).signExtend 32) k = byte v k := by
  refine BitVec.eq_of_getLsbD_eq fun j hj => ?_
  have h₁ : 8 * k + j < 8 * n := by omega
  have h₂ : 8 * k + j < 32 := by omega
  rw [getLsbD_byte, getLsbD_byte, BitVec.getLsbD_signExtend, BitVec.getLsbD_setWidth]
  simp [h₁, h₂]

/-- **The bytes a load writes back are those of the bus, seen through what the stores say.** -/
theorem byte_luValue {s : LuState} {p : Patch} (h : Shows (s.l2FeedbackValue, s.l2FeedbackMask) p)
    (busValue : Word) {k : Nat} (hk : k < luSize s.l2RevPack) :
    byte (luValue s busValue) k = (p k).getD (byte busValue k) := by
  have hsize : luSize s.l2RevPack ≤ 4 := by
    unfold luSize LuOp.size
    split
    · split <;> omega
    · omega
  rw [← h.through busValue (by omega)]
  unfold luValue
  split
  · rename_i hop
    rw [luSize, hop] at hk
    exact byte_signExtend (n := 1) _ hk (by omega)
  · rename_i hop
    rw [luSize, hop] at hk
    exact byte_signExtend (n := 2) _ hk (by omega)
  · rfl

/-! ## What a load meets -/

/-- An entry of the store buffer. -/
structure BufferedStore extends Laid where
  robId : Ptr
  addrValid : Bool
  dataValid : Bool

/-- The entry in a slot. -/
def StoreBuffer.entry (new : StoreBuffer) (id : Nat) : BufferedStore where
  addr := new.itemAddr id
  size := new.itemSize id
  data := (new.ring.producerGetItem id).data
  robId := (new.ring.producerGetItem id).robId
  addrValid := new.itemAddrValid id
  dataValid := (new.ring.producerGetItem id).dataValid

/-- The store an entry of the retired store buffer stands for. -/
def RetiredStoreBuffer.entry (new : RetiredStoreBuffer) (id : Nat) : Laid where
  addr := (new.ring.producerGetItem id).addr
  size := (new.ring.producerGetItem id).size
  data := (new.ring.producerGetItem id).data

/-- An aligned load in front of the two store buffers. What either of them holds is arbitrary,
but for what every writer sees to: the pointers belong to a ring, sizes are sizes of accesses,
and a load and a store in flight are in different ROB slots. -/
structure LoadView where
  rev : ReadregExecutePack
  storesCur : StoreBuffer
  stores : StoreBuffer
  retiredCur : RetiredStoreBuffer
  retired : RetiredStoreBuffer
  enabled : rev.enable = true
  plain : rev.hasException = false
  aligned : checkAlign rev.effectiveAddr (luSize rev) = true
  storesSeen : Fifo.Seen storesCur.ring stores.ring
  retiredSeen : Fifo.Seen retiredCur.ring retired.ring
  storeSizes : ∀ id ∈ Fifo.visible storesCur.ring stores.ring,
    stores.itemAddrValid id = true → SizeOk (stores.itemSize id)
  retiredSizes : ∀ id ∈ Fifo.visible retiredCur.ring retired.ring,
    SizeOk (retired.ring.buffer id).size
  otherSlot : ∀ id ∈ Fifo.visible storesCur.ring stores.ring,
    (stores.ring.buffer id).robId.id ≠ rev.robId.id

theorem luSize_cases (rev : ReadregExecutePack) :
    luSize rev = 2 ^ 0 ∨ luSize rev = 2 ^ 1 ∨ luSize rev = 2 ^ 2 := by
  unfold luSize LuOp.size
  split
  · split <;> simp
  · simp

namespace LoadView

variable (v : LoadView)

/-- The bytes the load reads. -/
def load : Access where
  addr := v.rev.effectiveAddr
  size := BitVec.ofNat 32 (luSize v.rev)
  size_ok := by
    rcases luSize_cases v.rev with h | h | h <;> rw [h]
    · exact .inl rfl
    · exact .inr (.inl rfl)
    · exact .inr (.inr rfl)
  aligned := by
    have hal := v.aligned
    rcases luSize_cases v.rev with h | h | h <;> rw [h] at hal ⊢
    · exact (checkAlign_pow _ 0 (by omega)).mp hal
    · exact (checkAlign_pow _ 1 (by omega)).mp hal
    · exact (checkAlign_pow _ 2 (by omega)).mp hal

/-- What the store buffer holds, oldest first. -/
def entries : List BufferedStore :=
  (Fifo.visible v.storesCur.ring v.stores.ring).map v.stores.entry

/-- The stores that have retired and are not in memory yet, oldest first. -/
def retiredStores : List Laid :=
  (Fifo.visible v.retiredCur.ring v.retired.ring).map v.retired.entry

/-- The store is older than the load, and complete. -/
def ready (e : BufferedStore) : Bool :=
  e.addrValid && e.dataValid && v.rev.robId.younger e.robId

/-- The store is older than the load, and its data is missing. -/
def missing (e : BufferedStore) : Bool :=
  e.addrValid && !e.dataValid && v.rev.robId.younger e.robId

/-- The complete stores of the store buffer that are older than the load, oldest first. -/
def olderStores : List Laid := (v.entries.filter v.ready).map (·.toLaid)

/-- The memory after the stores the load has to see. -/
def memory (m : Mem) : Mem := v.olderStores.foldl Laid.apply (v.retiredStores.foldl Laid.apply m)

/-- What the store buffer says of the load. -/
def feedback : Option (Word × Word) :=
  StoreBuffer.getFeedbackValue v.storesCur v.stores v.load.addr v.load.size v.rev.robId

/-- What the retired store buffer says of it. -/
def retiredFeedback : Word × Word :=
  RetiredStoreBuffer.getFeedbackValue v.retiredCur v.retired v.load.addr v.load.size

/-- The load unit after its first level has taken the load. -/
def taken (lu : LuState) : LuState :=
  luTake lu { feedback := v.feedback, retiredFeedback := v.retiredFeedback } v.rev

/-- The value the second level makes of what the memory answers. -/
def value (lu : LuState) (m : Mem) : Word :=
  luValue (v.taken lu) (m.read v.load.addr.toNat (luSize v.rev))

/-- **The load reads what the stores before it have written**, and it is told to come again
exactly when one of them has yet to bring its data. -/
structure Forwards (m : Mem) : Prop where
  unavailable : v.feedback = none ↔ ∃ e ∈ v.entries, v.missing e = true ∧ v.load.Meets e.toLaid
  value : v.feedback ≠ none → ∀ lu, ∀ k < luSize v.rev,
    byte (v.value lu m) k = v.memory m (v.load.addr.toNat + k)

/-- The same view, with other data in the two buffers. -/
def withData (data retiredData : Nat → Word) : LoadView where
  rev := v.rev
  storesCur := v.storesCur
  stores := { v.stores with
    ring := { v.stores.ring with
      buffer := fun id => { v.stores.ring.buffer id with data := data id } } }
  retiredCur := v.retiredCur
  retired := { v.retired with
    ring := { v.retired.ring with
      buffer := fun id => { v.retired.ring.buffer id with data := retiredData id } } }
  enabled := v.enabled
  plain := v.plain
  aligned := v.aligned
  storesSeen := v.storesSeen
  retiredSeen := v.retiredSeen
  storeSizes := v.storeSizes
  retiredSizes := v.retiredSizes
  otherSlot := v.otherSlot

/-- The stores the load has to see, oldest first, and whether their range test finds them. -/
def found : List Found :=
  v.retiredStores.map (fun s => (s, !retiredOverlooks v.load s))
    ++ v.olderStores.map (fun s => (s, !storeOverlooks v.load s))

/-- **No range test overlooks a store that matters**: a store whose data is missing and that
meets the load is not the only such store, or is found, and for every byte of the load the
youngest store that covers it is found. -/
structure Clear : Prop where
  unavailable : (∃ e ∈ v.entries, v.missing e = true ∧ v.load.Meets e.toLaid) →
    ∃ e ∈ v.entries, v.missing e = true ∧ v.load.Meets e.toLaid
      ∧ overlapOverlooks v.load e.toLaid = false
  value : (∀ e ∈ v.entries, v.missing e = true → ¬ v.load.Meets e.toLaid) →
    ∀ k < luSize v.rev, ∀ s,
      v.found.reverse.find? (fun s => s.1.covers (v.load.addr.toNat + k)) = some s → s.2 = true

end LoadView

/-! ## The two answers -/

/-- One entry of the store buffer in the walk. -/
def feedEntry (addr size : Word) (robId : Ptr) (acc : Word × Word) (e : BufferedStore) :
    Option (Word × Word) :=
  if !e.dataValid && e.addrValid && robId.younger e.robId && overlap e.addr e.size addr size then
    none
  else if e.addrValid && e.robId.younger robId then some acc
  else if e.dataValid && e.addrValid then some (mergeStore addr size e.addr e.size e.data acc)
  else some acc

/-- A row of merges, as a row of patches. -/
theorem foldl_shows {merge : Word × Word → Laid → Word × Word} (patch : Laid → Patch)
    {l : List Laid}
    (h : ∀ s ∈ l, ∀ acc p, Shows acc p → Shows (merge acc s) ((patch s).over p))
    {acc : Word × Word} {p : Patch} (hs : Shows acc p) :
    Shows (l.foldl merge acc) (l.foldl (fun p s => (patch s).over p) p) := by
  induction l generalizing acc p with
  | nil => exact hs
  | cons s l ih =>
    rw [List.foldl_cons, List.foldl_cons]
    exact ih (fun t ht => h t (List.mem_cons_of_mem _ ht)) (h s (List.mem_cons_self ..) acc p hs)

/-- Of two positions in different slots one is younger. -/
theorem younger_total {p q : Ptr} (h : p.id ≠ q.id) : p.younger q = !q.younger p := by
  unfold Ptr.younger
  by_cases hs : p.stage = q.stage
  · have h₁ : (p.stage == q.stage) = true := by simpa using hs
    have h₂ : (q.stage == p.stage) = true := by simpa using hs.symm
    rw [if_pos h₁, if_pos h₂, ← decide_not, decide_eq_decide]
    omega
  · have h₁ : ¬ (p.stage == q.stage) = true := by simpa using hs
    have h₂ : ¬ (q.stage == p.stage) = true := by simpa using Ne.symm hs
    rw [if_neg h₁, if_neg h₂, ← decide_not, decide_eq_decide]
    omega

/-- What the first level keeps of the two answers. -/
theorem luTake_feedback (s : LuState) (inp : LuInput) {rev : ReadregExecutePack}
    {acc : Word × Word} (he : rev.enable = true) (hp : rev.hasException = false)
    (hf : inp.feedback = some acc) :
    ((luTake s inp rev).l2FeedbackValue, (luTake s inp rev).l2FeedbackMask)
        = [0, 8, 16, 24].foldl (combineByte inp.retiredFeedback) acc
      ∧ (luTake s inp rev).l2RevPack.subOp = rev.subOp := by
  unfold luTake
  rw [he, hp, hf]
  exact ⟨rfl, rfl⟩

namespace LoadView

variable (v : LoadView)

theorem load_size : v.load.size.toNat = luSize v.rev := by
  show (BitVec.ofNat 32 (luSize v.rev)).toNat = luSize v.rev
  rcases luSize_cases v.rev with h | h | h <;> rw [h] <;> rfl

theorem entry_slot {e : BufferedStore} (he : e ∈ v.entries) :
    e.robId.id ≠ v.rev.robId.id ∧ (e.addrValid = true → SizeOk e.size) := by
  obtain ⟨id, hid, rfl⟩ := List.mem_map.mp he
  exact ⟨v.otherSlot id hid, v.storeSizes id hid⟩

/-- An entry in the walk gives up, is merged or is passed over. -/
theorem feedEntry_eq {e : BufferedStore} (he : e ∈ v.entries) (acc : Word × Word) :
    feedEntry v.load.addr v.load.size v.rev.robId acc e
      = if v.missing e && overlap e.addr e.size v.load.addr v.load.size then none
        else some (if v.ready e then mergeStore v.load.addr v.load.size e.addr e.size e.data acc
          else acc) := by
  have hy := younger_total (v.entry_slot he).1
  unfold feedEntry missing ready
  rw [hy]
  cases e.addrValid <;> cases e.dataValid <;> cases v.rev.robId.younger e.robId <;> simp

/-- **What the store buffer says of a load.** -/
theorem feedback_eq : v.feedback =
    if v.entries.any fun e => v.missing e && overlap e.addr e.size v.load.addr v.load.size then none
    else some (v.olderStores.foldl (fun acc s =>
      mergeStore v.load.addr v.load.size s.addr s.size s.data acc) (0, 0)) := by
  have hwalk := v.storesSeen.walk_eq (by decide)
  have hfold : v.feedback = v.entries.foldlM
      (feedEntry v.load.addr v.load.size v.rev.robId) (0, 0) := by
    unfold feedback StoreBuffer.getFeedbackValue entries
    rw [hwalk, List.foldlM_map]
    rfl
  rw [hfold, foldlM_blocked (fun e he acc => v.feedEntry_eq he acc)]
  congr 2
  rw [olderStores, List.foldl_map, List.foldl_filter]

/-- The store buffer tells the load to come again exactly for the missing stores the interval
test finds. -/
theorem feedback_eq_none : v.feedback = none ↔ ∃ e ∈ v.entries, v.missing e = true
    ∧ v.load.Meets e.toLaid ∧ overlapOverlooks v.load e.toLaid = false := by
  rw [feedback_eq]
  have hany : (v.entries.any fun e =>
      v.missing e && overlap e.addr e.size v.load.addr v.load.size) = true
      ↔ ∃ e ∈ v.entries, v.missing e = true
        ∧ v.load.Meets e.toLaid ∧ overlapOverlooks v.load e.toLaid = false := by
    rw [List.any_eq_true]
    refine exists_congr fun e => and_congr_right fun he => ?_
    rw [Bool.and_eq_true]
    refine and_congr_right fun hm => ?_
    have hsize : SizeOk e.size := (v.entry_slot he).2 (by
      unfold missing at hm
      rw [Bool.and_eq_true, Bool.and_eq_true] at hm
      exact hm.1.1)
    exact overlap_meets (s := e.toLaid) hsize
  rw [← hany]
  split
  · rename_i h
    exact ⟨fun _ => h, fun _ => rfl⟩
  · rename_i h
    exact ⟨(fun hc => by cases hc), fun hc => absurd hc h⟩

theorem olderStores_size {s : Laid} (hs : s ∈ v.olderStores) : SizeOk s.size := by
  obtain ⟨e, he, rfl⟩ := List.mem_map.mp hs
  obtain ⟨he, hr⟩ := List.mem_filter.mp he
  refine (v.entry_slot he).2 ?_
  unfold ready at hr
  rw [Bool.and_eq_true, Bool.and_eq_true] at hr
  exact hr.1.1

theorem retiredStores_size {s : Laid} (hs : s ∈ v.retiredStores) : SizeOk s.size := by
  obtain ⟨id, hid, rfl⟩ := List.mem_map.mp hs
  exact v.retiredSizes id hid

/-- The patch of a store in the store buffer. -/
def storePatch (s : Laid) : Patch :=
  rangePatch (storeRange v.load.addr v.load.size s.addr s.size) s.data

/-- The patch of a retired store. -/
def retiredPatch (s : Laid) : Patch :=
  rangePatch (retiredRange v.load.addr v.load.size s.addr s.size) s.data

/-- The patch of a row of stores. -/
def patches (patch : Laid → Patch) (l : List Laid) : Patch :=
  l.foldl (fun p s => (patch s).over p) Patch.empty

/-- What a row of patches, cut down to the stores a test finds, leaves in a byte of the load. -/
theorem foundPatch (overlooks : Laid → Bool) (patch : Laid → Patch) {l : List Laid} {k : Nat}
    (h : ∀ s ∈ l, patch s k = if overlooks s then none else s.byteAt (v.load.addr.toNat + k)) :
    patches patch l k
      = (l.map fun s => (s, !overlooks s)).reverse.findSome?
        (foundByte · (v.load.addr.toNat + k)) := by
  rw [patches, foldl_over, ← List.map_reverse, List.findSome?_map]
  rw [show Patch.empty k = none from rfl, Option.or_none]
  refine findSome?_congr fun s hs => ?_
  rw [h s (List.mem_reverse.mp hs), Function.comp, foundByte]
  cases overlooks s <;> rfl

/-- The store buffer's answer shows the patches of the older stores. -/
theorem olderStores_shows :
    Shows (v.olderStores.foldl (fun acc s =>
      mergeStore v.load.addr v.load.size s.addr s.size s.data acc) (0#32, 0#32))
      (patches v.storePatch v.olderStores) := by
  refine foldl_shows v.storePatch ?_ shows_zero
  intro s hs acc p h
  exact mergeStore_shows v.load.size_bounds (v.olderStores_size hs).bounds v.load.end_le h

/-- The retired store buffer's answer shows those of the retired stores. -/
theorem retiredFeedback_shows :
    Shows v.retiredFeedback (patches v.retiredPatch v.retiredStores) := by
  have hwalk := v.retiredSeen.walk_eq (by decide)
  have hfold : v.retiredFeedback = v.retiredStores.foldl (fun acc s =>
      mergeRetired v.load.addr v.load.size s.addr s.size s.data acc) (0#32, 0#32) := by
    unfold retiredFeedback RetiredStoreBuffer.getFeedbackValue retiredStores
    rw [hwalk, List.foldl_map]
    rfl
  rw [hfold]
  refine foldl_shows v.retiredPatch ?_ shows_zero
  intro s hs acc p h
  exact mergeRetired_shows v.load.size_bounds (v.retiredStores_size hs).bounds h

/-- **The load unit puts the two answers over one another**, and a byte of the load is what the
youngest store that is found says. -/
theorem byte_value (hf : v.feedback ≠ none) (lu : LuState) (m : Mem) {k : Nat}
    (hk : k < luSize v.rev) :
    byte (v.value lu m) k
      = (v.found.reverse.findSome? (foundByte · (v.load.addr.toNat + k))).getD
        (m (v.load.addr.toNat + k)) := by
  have hsize := v.load_size
  have hbounds := v.load.size_bounds
  have hk' : k < v.load.size.toNat := by omega
  have hfeed := v.feedback_eq
  split at hfeed
  · exact absurd hfeed hf
  · have hboth := combine_shows v.retiredFeedback_shows v.olderStores_shows
    obtain ⟨htaken, hop⟩ := luTake_feedback lu
      { feedback := v.feedback, retiredFeedback := v.retiredFeedback }
      v.enabled v.plain hfeed
    have hshows : Shows ((v.taken lu).l2FeedbackValue, (v.taken lu).l2FeedbackMask) _ :=
      htaken ▸ hboth
    have hksize : k < luSize (v.taken lu).l2RevPack := by
      rw [luSize, show (v.taken lu).l2RevPack.subOp = v.rev.subOp from hop]
      exact hk
    rw [value, byte_luValue hshows _ hksize, Mem.byte_read m _ hk (by omega)]
    rw [Patch.over, v.foundPatch (storeOverlooks v.load) v.storePatch
        (fun s hs => storeRange_patch (v.olderStores_size hs) hk'),
      v.foundPatch (retiredOverlooks v.load) v.retiredPatch
        (fun s hs => retiredRange_patch (v.retiredStores_size hs) hk')]
    rw [found, List.reverse_append, List.findSome?_append]

/-! ## Exactly when -/

theorem memory_eq (m : Mem) (i : Nat) :
    v.memory m i = (v.found.reverse.findSome? (·.1.byteAt i)).getD (m i) := by
  have hmap : (v.retiredStores ++ v.olderStores) = v.found.map Prod.fst := by
    rw [found, List.map_append, List.map_map, List.map_map]
    simp [Function.comp_def]
  rw [memory, ← List.foldl_append, Laid.foldl_apply, hmap, ← List.map_reverse, List.findSome?_map]
  rfl

/-- **Where nothing is overlooked, the load is right.** -/
theorem forwards_of_clear {v : LoadView} (h : v.Clear) (m : Mem) : v.Forwards m := by
  refine ⟨⟨fun hn => ?_, fun hex => ?_⟩, fun hf lu k hk => ?_⟩
  · obtain ⟨e, he, hm, hmeets, -⟩ := v.feedback_eq_none.mp hn
    exact ⟨e, he, hm, hmeets⟩
  · exact v.feedback_eq_none.mpr (h.unavailable hex)
  · have hnone : ∀ e ∈ v.entries, v.missing e = true → ¬ v.load.Meets e.toLaid := by
      intro e he hm hmeets
      exact hf (v.feedback_eq_none.mpr (h.unavailable ⟨e, he, hm, hmeets⟩))
    rw [v.byte_value hf lu m hk, v.memory_eq, findSome?_found (h.value hnone k hk)]

/-- What the range tests look at. -/
def shape (s : Found) : Word × Word × Bool := (s.1.addr, s.1.size, s.2)

/-- The youngest store that covers a byte depends on the shapes alone. -/
theorem find?_shape {l l' : List Found} (h : l.map shape = l'.map shape) (i : Nat) {s : Found}
    (hs : l.find? (·.1.covers i) = some s) :
    ∃ s', l'.find? (·.1.covers i) = some s' ∧ s'.2 = s.2 := by
  induction l generalizing l' with
  | nil => cases hs
  | cons t l ih =>
    cases l' with
    | nil => cases h
    | cons t' l' =>
      obtain ⟨ht, hl⟩ := List.cons.inj h
      have hcov : t'.1.covers i = t.1.covers i := by
        simp only [shape, Prod.mk.injEq] at ht
        rw [Laid.covers, Laid.covers, ht.1, ht.2.1]
      by_cases hc : t.1.covers i = true
      · rw [List.find?_cons_of_pos (p := fun s : Found => s.1.covers i) hc] at hs
        cases hs
        refine ⟨t', List.find?_cons_of_pos (p := fun s : Found => s.1.covers i) (hcov.trans hc), ?_⟩
        exact (congrArg (fun x => x.2.2) ht).symm
      · rw [List.find?_cons_of_neg (p := fun s : Found => s.1.covers i) hc] at hs
        rw [List.find?_cons_of_neg (p := fun s : Found => s.1.covers i) (hcov ▸ hc)]
        exact ih hl hs

variable (data retiredData : Nat → Word)

theorem exists_withData (P : BufferedStore → Prop) (hP : ∀ id, P (v.stores.entry id)
      ↔ P ((v.withData data retiredData).stores.entry id)) :
    (∃ e ∈ (v.withData data retiredData).entries, P e) ↔ ∃ e ∈ v.entries, P e := by
  simp only [entries, List.mem_map, exists_exists_and_eq_and]
  exact exists_congr fun id => and_congr_right fun _ => (hP id).symm

theorem retiredStores_withData : (v.withData data retiredData).retiredStores
    = (Fifo.visible v.retiredCur.ring v.retired.ring).map
      fun id => { v.retired.entry id with data := retiredData id } := rfl

theorem olderStores_withData : (v.withData data retiredData).olderStores
    = ((Fifo.visible v.storesCur.ring v.stores.ring).filter (v.ready ∘ v.stores.entry)).map
      fun id => { (v.stores.entry id).toLaid with data := data id } := by
  rw [olderStores, entries, List.filter_map, List.map_map]
  rfl

theorem olderStores_eq : v.olderStores
    = ((Fifo.visible v.storesCur.ring v.stores.ring).filter (v.ready ∘ v.stores.entry)).map
      fun id => (v.stores.entry id).toLaid := by
  rw [olderStores, entries, List.filter_map, List.map_map]
  rfl

/-- Other data does not change what the range tests look at. -/
theorem shape_withData : (v.withData data retiredData).found.map shape = v.found.map shape := by
  rw [found, found, retiredStores_withData, olderStores_withData, olderStores_eq, retiredStores]
  simp only [List.map_append, List.map_map]
  rfl

theorem clear_withData (h : v.Clear) : (v.withData data retiredData).Clear where
  unavailable := by
    intro hex
    have hex' := (v.exists_withData data retiredData (fun e => v.missing e = true
      ∧ v.load.Meets e.toLaid) fun _ => Iff.rfl).mp hex
    exact (v.exists_withData data retiredData (fun e => v.missing e = true
      ∧ v.load.Meets e.toLaid ∧ overlapOverlooks v.load e.toLaid = false)
      fun _ => Iff.rfl).mpr (h.unavailable hex')
  value := by
    intro hnone k hk s hs
    have hnone' : ∀ e ∈ v.entries, v.missing e = true → ¬ v.load.Meets e.toLaid := by
      intro e he hm hmeets
      obtain ⟨e', he', hm', hmeets'⟩ := (v.exists_withData data retiredData
        (fun e => v.missing e = true ∧ v.load.Meets e.toLaid) fun _ => Iff.rfl).mpr
        ⟨e, he, hm, hmeets⟩
      exact hnone e' he' hm' hmeets'
    have hshape := congrArg List.reverse (v.shape_withData data retiredData)
    rw [← List.map_reverse, ← List.map_reverse] at hshape
    obtain ⟨s', hs', hf⟩ := find?_shape hshape _ hs
    exact hf ▸ h.value hnone' k hk s' hs'

theorem found_size {s : Found} (hs : s ∈ v.found) : SizeOk s.1.size := by
  rcases List.mem_append.mp hs with h | h
  · obtain ⟨t, ht, rfl⟩ := List.mem_map.mp h
    exact v.retiredStores_size ht
  · obtain ⟨t, ht, rfl⟩ := List.mem_map.mp h
    exact v.olderStores_size ht

/-- Data that shows what the store buffer's range test overlooks. -/
def revealStores (id : Nat) : Word :=
  revealing ((v.stores.entry id).toLaid, !storeOverlooks v.load (v.stores.entry id).toLaid)

/-- Data that shows what the retired store buffer's range test overlooks. -/
def revealRetired (id : Nat) : Word :=
  revealing (v.retired.entry id, !retiredOverlooks v.load (v.retired.entry id))

/-- The view with this data. -/
def revealed : LoadView := v.withData v.revealStores v.revealRetired

theorem revealed_data {s : Found} (hs : s ∈ v.revealed.found) : s.1.data = revealing s := by
  rcases List.mem_append.mp hs with h | h
  · rw [revealed, retiredStores_withData, List.map_map] at h
    obtain ⟨id, -, rfl⟩ := List.mem_map.mp h
    rfl
  · rw [revealed, olderStores_withData, List.map_map] at h
    obtain ⟨id, -, rfl⟩ := List.mem_map.mp h
    rfl

/-- **Where a store that matters is overlooked, the load is wrong** for some data. -/
theorem not_forwards_revealed (hnone : ∀ e ∈ v.entries, v.missing e = true →
    ¬ v.load.Meets e.toLaid) {k : Nat} (hk : k < luSize v.rev) {s : Found}
    (hs : v.found.reverse.find? (fun s => s.1.covers (v.load.addr.toNat + k)) = some s)
    (hf : s.2 = false) : ¬ v.revealed.Forwards fun _ => 0#8 := by
  intro h
  have hshape := congrArg List.reverse (v.shape_withData v.revealStores v.revealRetired).symm
  rw [← List.map_reverse, ← List.map_reverse] at hshape
  obtain ⟨s', hs', hf'⟩ := find?_shape hshape _ hs
  have havail : v.revealed.feedback ≠ none := by
    intro hn
    obtain ⟨e, he, hm, hmeets, -⟩ := v.revealed.feedback_eq_none.mp hn
    obtain ⟨e', he', hm', hmeets'⟩ := (v.exists_withData v.revealStores v.revealRetired
      (fun e => v.missing e = true ∧ v.load.Meets e.toLaid) fun _ => Iff.rfl).mp
      ⟨e, he, hm, hmeets⟩
    exact hnone e' he' hm' hmeets'
  obtain ⟨hspec, hload⟩ := findSome?_revealing
    (fun t ht => v.revealed.found_size (List.mem_reverse.mp ht))
    (fun t ht => v.revealed_data (List.mem_reverse.mp ht)) hs' (hf'.trans hf)
  have hval := h.value havail {} k hk
  rw [v.revealed.byte_value havail {} _ hk, v.revealed.memory_eq] at hval
  have heq : (0#8 : BitVec 8) = 255#8 := hload.symm.trans (hval.trans (by
    show (v.revealed.found.reverse.findSome? (·.1.byteAt (v.load.addr.toNat + k))).getD 0#8 = 255#8
    rw [hspec]
    rfl))
  exact absurd heq (by decide)

end LoadView

/-- **A load reads what the stores before it have written, whatever the data and the memory,
exactly when no range test overlooks a store that matters.** -/
theorem forwards_iff (v : LoadView) :
    (∀ data retiredData m, (v.withData data retiredData).Forwards m) ↔ v.Clear := by
  constructor
  · intro h
    refine ⟨fun hex => ?_, fun hnone k hk s hs => ?_⟩
    · have hex' := (v.exists_withData (fun _ => 0) (fun _ => 0) (fun e => v.missing e = true
        ∧ v.load.Meets e.toLaid) fun _ => Iff.rfl).mpr hex
      have hn := (h (fun _ => 0) (fun _ => 0) fun _ => 0).unavailable.mpr hex'
      exact (v.exists_withData (fun _ => 0) (fun _ => 0) (fun e => v.missing e = true
        ∧ v.load.Meets e.toLaid ∧ overlapOverlooks v.load e.toLaid = false)
        fun _ => Iff.rfl).mp ((v.withData (fun _ => 0) fun _ => 0).feedback_eq_none.mp hn)
    · by_contra hf
      exact v.not_forwards_revealed hnone hk hs (by simpa using hf) (h _ _ _)
  · intro h data retiredData m
    exact LoadView.forwards_of_clear (v.clear_withData data retiredData h) m

/-- A word store to the last four bytes of the address space has retired, and a load of its
second byte comes before it has reached the memory. -/
def topView : LoadView where
  rev := {
    enable := true
    valid := true
    opUnit := .lu
    subOp := .lu .lbu
    imm := 0xfffffffd
    robId := ⟨1, false⟩ }
  storesCur := Core.blank.storeBuffer
  stores := Core.blank.storeBuffer
  retiredCur := ⟨{ buffer := fun _ => {} }, false⟩
  retired :=
    ⟨{ buffer := fun _ => ⟨0xfffffffc, 4, 0x04030201⟩, wptr := ⟨1, false⟩ }, true⟩
  enabled := rfl
  plain := rfl
  aligned := by decide
  storesSeen := ⟨0, 0, by decide, by decide, by decide, by decide⟩
  retiredSeen := ⟨0, 1, by decide, by decide, by decide, by decide⟩
  storeSizes := fun _ hid => (List.not_mem_nil hid).elim
  retiredSizes := fun _ _ => .inr (.inr rfl)
  otherSlot := fun _ hid => (List.not_mem_nil hid).elim

/-- It sees through the store. -/
theorem not_forwards_at_top : ¬ ∀ (v : LoadView) (m : Mem), v.Forwards m := by
  intro h
  have hval := (h topView fun _ => 0).value (by decide +kernel) {} 0 (by decide)
  exact absurd hval (by decide +kernel)

end DreamCore
