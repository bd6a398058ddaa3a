import DreamCore.Component.AddressMap
import DreamCore.Lib.RangeMap

/-!
# The address maps

The two buses and `pma_unit` each keep a list of ranges and refuse a range that
overlaps one they have. All of it is computed in 32 bits, where the end of a range
that reaches 2^32 is zero. The buses also look an address up by that end; the
`pma_unit` looks it up by the last address.

What a range claims is a set of addresses here, those from its base on that exist.
-/

namespace DreamCore

open RangeMap

/-- The addresses from `base` on, as many as `size` says and there are. -/
def addresses (base size : Word) : Set Word :=
  { a | base.toNat ≤ a.toNat ∧ a.toNat < base.toNat + size.toNat }

theorem mem_addresses {base size a : Word} : a ∈ addresses base size ↔
    base.toNat ≤ a.toNat ∧ a.toNat < base.toNat + size.toNat := Iff.rfl

theorem base_mem_addresses {base size : Word} (h : size ≠ 0) : base ∈ addresses base size := by
  have hpos : size.toNat ≠ 0 := fun hz => h (BitVec.eq_of_toNat_eq hz)
  exact ⟨Nat.le_refl _, by omega⟩

/-- The end of a range, as 32-bit arithmetic has it. -/
theorem end_toNat (base size : Word) :
    (base + size).toNat = base.toNat + size.toNat ∨
      2 ^ 32 ≤ base.toNat + size.toNat ∧
        (base + size).toNat = base.toNat + size.toNat - 2 ^ 32 := by
  have hb := base.isLt
  have hs := size.isLt
  rw [BitVec.toNat_add]
  omega

/-! ## The buses -/

/-- An entry of `slave_info_list`, but for the slave. -/
structure BusRange where
  base : Word
  size : Word
  supportFetch : Bool
deriving DecidableEq, Repr

namespace BusRange

/-- The slave behind the range. -/
def slave (s : BusRange) : SlaveInfo := ⟨s.base, s.size.toNat, s.supportFetch⟩

/-- The test of `check_addr_override` for one entry. -/
def overrides (s : BusRange) (base size : Word) : Bool :=
  (decide (base ≥ s.base) && decide (base < s.base + s.size))
    || (decide (base < s.base) && decide (base + size > s.base))

/-- `check_addr_override`, in the cycle model and in the ISA model. -/
def checkAddrOverride (l : List BusRange) (base size : Word) : Bool :=
  l.any fun s => s.overrides base size

/-- `map`. A failed `verify` ends the program. -/
def map (l : List BusRange) (req : BusRange) : Option (List BusRange) :=
  if checkAddrOverride l req.base req.size then none else some (l ++ [req])

/-- `find_slave_info`, in the cycle model and in the ISA model. -/
def findSlaveInfo (l : List BusRange) (addr : Word) (isFetch : Bool) : Option Nat :=
  l.findIdx? fun s => s.slave.maps addr isFetch

/-- What the range claims. -/
def cover (s : BusRange) : Set Word := addresses s.base s.size

/-- What it claims of a fetch, or of another access. -/
def coverFor (isFetch : Bool) (s : BusRange) : Set Word :=
  { a | a ∈ s.cover ∧ (isFetch = true → s.supportFetch = true) }

theorem coverFor_false (s : BusRange) : coverFor false s = s.cover := by
  ext a
  simp [coverFor]

theorem maps_iff (s : BusRange) (addr : Word) (isFetch : Bool) :
    s.slave.maps addr isFetch = true ↔
      (s.base ≤ addr ∧ addr < s.base + s.size) ∧ (isFetch = true → s.supportFetch = true) := by
  unfold SlaveInfo.maps slave
  simp only [BitVec.ofNat_toNat, BitVec.setWidth_eq]
  cases isFetch <;> simp

/-- The end of the range can be written down. -/
def Ends (s : BusRange) : Prop := s.base.toNat + s.size.toNat < 2 ^ 32

instance (s : BusRange) : Decidable s.Ends := by unfold Ends; infer_instance

/-- Then the test of the lookup says what the range claims. -/
theorem Ends.maps_iff {s : BusRange} (h : s.Ends) (addr : Word) (isFetch : Bool) :
    s.slave.maps addr isFetch = true ↔ addr ∈ s.coverFor isFetch := by
  have hend : (s.base + s.size).toNat = s.base.toNat + s.size.toNat := by
    have hends : s.base.toNat + s.size.toNat < 2 ^ 32 := h
    have := end_toNat s.base s.size
    omega
  rw [BusRange.maps_iff, BitVec.le_def, BitVec.lt_def, hend]
  exact Iff.rfl

/-- A range with addresses that is found at its base ends below 2^32. -/
theorem ends_of_maps {s : BusRange} (h : s.size ≠ 0 → s.slave.maps s.base false = true) :
    s.Ends := by
  unfold Ends
  have hb := s.base.isLt
  by_cases hz : s.size = 0
  · rw [hz]
    simpa using hb
  · have hlt := ((BusRange.maps_iff s s.base false).mp (h hz)).1.2
    rw [BitVec.lt_def] at hlt
    have hs := s.size.isLt
    have := end_toNat s.base s.size
    omega

/-- **The map is in order**: the ranges are apart, and the lookup finds, for a fetch and for any
other access, the one that claims the address. -/
structure InOrder (l : List BusRange) : Prop where
  apart : Apart cover l
  finds : ∀ isFetch, Finds (fun s a => s.slave.maps a isFetch) (coverFor isFetch) l

/-- What is asked of a request: one that overlaps is refused, and what comes out is in order. -/
structure Handled (l : List BusRange) (req : BusRange) : Prop where
  refused : ∀ s ∈ l, ¬ Disjoint s.cover req.cover → map l req = none
  inOrder : InOrder ((map l req).getD l)

/-- The request is refused, or its end can be written down. -/
def Fits (l : List BusRange) (req : BusRange) : Prop :=
  checkAddrOverride l req.base req.size = true ∨ req.Ends

instance (l : List BusRange) (req : BusRange) : Decidable (Fits l req) := by
  unfold Fits; infer_instance

variable {l : List BusRange} {req : BusRange}

theorem InOrder.ends (h : InOrder l) {s : BusRange} (hs : s ∈ l) : s.Ends :=
  ends_of_maps fun hz => (h.finds false).passes hs
    (by rw [coverFor_false]; exact base_mem_addresses hz)

theorem inOrder_of_ends (hapart : Apart cover l) (h : ∀ s ∈ l, s.Ends) : InOrder l where
  apart := hapart
  finds isFetch := finds_of_apart hapart (fun _ _ hb => hb.1)
    fun s hs b => (h s hs).maps_iff b isFetch

/-- **Among ranges that end below 2^32 the test for overlaps misses none.** -/
theorem overrides_of_overlap {s : BusRange} (hs : s.Ends) (hreq : req.Ends)
    (h : ¬ Disjoint s.cover req.cover) : s.overrides req.base req.size = true := by
  obtain ⟨a, ha, hb⟩ := Set.not_disjoint_iff.mp h
  rw [cover, mem_addresses] at ha hb
  have hs' : s.base.toNat + s.size.toNat < 2 ^ 32 := hs
  have hreq' : req.base.toNat + req.size.toNat < 2 ^ 32 := hreq
  have hend := end_toNat s.base s.size
  have hend' := end_toNat req.base req.size
  unfold overrides
  simp only [Bool.or_eq_true, Bool.and_eq_true, decide_eq_true_eq, ge_iff_le, gt_iff_lt,
    BitVec.le_def, BitVec.lt_def]
  omega

theorem map_eq : (map l req).getD l
    = next (fun l req => checkAddrOverride l req.base req.size) l req := by
  unfold map next
  split <;> rfl

/-- **One request.** -/
theorem handled_iff (h : InOrder l) : Handled l req ↔ Fits l req := by
  by_cases hover : checkAddrOverride l req.base req.size = true
  · have hnone : map l req = none := if_pos hover
    refine iff_of_true ⟨fun _ _ _ => hnone, ?_⟩ (.inl hover)
    rw [hnone]
    exact h
  · have hsome : map l req = some (l ++ [req]) := if_neg hover
    constructor
    · intro hhandled
      have hnew := hhandled.inOrder
      rw [hsome] at hnew
      exact .inr (hnew.ends (List.mem_append_right l List.mem_cons_self))
    · intro hfits
      have hends : req.Ends := hfits.resolve_left hover
      have hdisjoint : ∀ s ∈ l, Disjoint s.cover req.cover := by
        intro s hs
        by_contra hoverlap
        exact hover (List.any_eq_true.mpr
          ⟨s, hs, overrides_of_overlap (h.ends hs) hends hoverlap⟩)
      refine ⟨fun s hs hoverlap => absurd (hdisjoint s hs) hoverlap, ?_⟩
      rw [hsome]
      refine inOrder_of_ends (apart_snoc.mpr ⟨h.apart, hdisjoint⟩) fun s hs => ?_
      rcases List.mem_append.mp hs with hs | hs
      · exact h.ends hs
      · exact List.mem_singleton.mp hs ▸ hends

theorem inOrder_nil : InOrder [] :=
  inOrder_of_ends List.Pairwise.nil fun _ hs => by cases hs

end BusRange

/-! ## The `pma_unit` -/

/-- `pma_item_t`. -/
structure PmaItem where
  addr : Word
  size : Word
  isCacheable : Bool
deriving DecidableEq, Repr

namespace PmaItem

/-- The test of `get_pma_item` for one item. -/
def holds (t : PmaItem) (addr : Word) : Bool :=
  decide (addr ≥ t.addr) && decide (addr ≤ t.addr + t.size - 1)

/-- The two tests of `add_fixed_pma_item` for one item. -/
def sharesSpace (t item : PmaItem) : Bool :=
  (decide (item.addr ≥ t.addr) && decide (item.addr < t.addr + t.size))
    || (decide (t.addr ≥ item.addr) && decide (t.addr < item.addr + item.size))

/-- Some test of `add_fixed_pma_item` fails. -/
def refuses (l : List PmaItem) (item : PmaItem) : Bool := l.any fun t => t.sharesSpace item

/-- `add_fixed_pma_item`. A failed `verify_only` ends the program. -/
def addFixedPmaItem (l : List PmaItem) (item : PmaItem) : Option (List PmaItem) :=
  if refuses l item then none else some (l ++ [item])

/-- What the item claims. -/
def cover (t : PmaItem) : Set Word := addresses t.addr t.size

/-- The lookup takes the item for what it claims. -/
def Reads (t : PmaItem) : Prop :=
  t.addr.toNat + t.size.toNat ≤ 2 ^ 32 ∧ ¬ (t.addr = 0 ∧ t.size = 0)

instance (t : PmaItem) : Decidable t.Reads := by unfold Reads; infer_instance

/-- The item has addresses and goes on to the last one. -/
def ToTheEnd (t : PmaItem) : Prop := t.size ≠ 0 ∧ t.addr.toNat + t.size.toNat = 2 ^ 32

instance (t : PmaItem) : Decidable t.ToTheEnd := by unfold ToTheEnd; infer_instance

/-- **The map is in order.** -/
structure InOrder (l : List PmaItem) : Prop where
  apart : Apart cover l
  finds : Finds holds cover l

/-- What is asked of a request. -/
structure Handled (l : List PmaItem) (item : PmaItem) : Prop where
  refused : ∀ t ∈ l, ¬ Disjoint t.cover item.cover → addFixedPmaItem l item = none
  inOrder : InOrder ((addFixedPmaItem l item).getD l)

/-- The request is refused; or the lookup can read it, and of two items of which the upper one goes
on to the last address none is the request. -/
def Fits (l : List PmaItem) (item : PmaItem) : Prop :=
  refuses l item = true ∨
    item.Reads ∧ (item.size ≠ 0 → ∀ t ∈ l, t.size ≠ 0 →
      ¬ (t.ToTheEnd ∧ t.addr ≤ item.addr) ∧ ¬ (item.ToTheEnd ∧ item.addr ≤ t.addr))

instance (l : List PmaItem) (item : PmaItem) : Decidable (Fits l item) := by
  unfold Fits; infer_instance

variable {l : List PmaItem} {t item : PmaItem} {a : Word}

/-- The last address of an item, as 32-bit arithmetic has it. -/
theorem last_toNat (t : PmaItem) (h : t.addr ≠ 0 ∨ t.size ≠ 0) :
    (t.addr + t.size - 1).toNat = t.addr.toNat + t.size.toNat - 1 ∨
      2 ^ 32 < t.addr.toNat + t.size.toNat ∧
        (t.addr + t.size - 1).toNat = t.addr.toNat + t.size.toNat - 1 - 2 ^ 32 := by
  have hb := t.addr.isLt
  have hs := t.size.isLt
  have hpos : t.addr.toNat ≠ 0 ∨ t.size.toNat ≠ 0 :=
    h.imp (fun h hz => h (BitVec.eq_of_toNat_eq hz)) fun h hz => h (BitVec.eq_of_toNat_eq hz)
  rw [BitVec.toNat_sub, BitVec.toNat_add]
  simp
  omega

theorem Reads.holds_iff (h : t.Reads) (a : Word) : t.holds a = true ↔ a ∈ t.cover := by
  obtain ⟨hend, hne⟩ := h
  have hlast := last_toNat t (by
    by_contra hn
    rw [not_or, not_not, not_not] at hn
    exact hne hn)
  have hpos : t.addr.toNat + t.size.toNat ≠ 0 := by
    intro hz
    exact hne ⟨BitVec.eq_of_toNat_eq (by simp; omega), BitVec.eq_of_toNat_eq (by simp; omega)⟩
  rw [cover, mem_addresses]
  unfold holds
  simp only [Bool.and_eq_true, decide_eq_true_eq, ge_iff_le, BitVec.le_def]
  omega

/-- The base of an item that goes past the last address does not pass the test of the lookup. -/
theorem reads_of_holds (hne : ¬ (t.addr = 0 ∧ t.size = 0))
    (h : t.size ≠ 0 → t.holds t.addr = true) : t.Reads := by
  refine ⟨?_, hne⟩
  have hb := t.addr.isLt
  have hs := t.size.isLt
  by_cases hz : t.size = 0
  · rw [hz]
    simp
    omega
  · have hlast := last_toNat t (.inr hz)
    have htest := h hz
    unfold holds at htest
    simp only [Bool.and_eq_true, decide_eq_true_eq, BitVec.le_def] at htest
    omega

/-- Items that are apart and can be read. -/
structure Kept (l : List PmaItem) : Prop where
  apart : Apart cover l
  reads : ∀ t ∈ l, t.Reads

theorem Kept.inOrder (h : Kept l) : InOrder l where
  apart := h.apart
  finds := finds_of_apart h.apart (fun _ _ hb => hb) fun t ht b => (h.reads t ht).holds_iff b

theorem cover_empty (h : t.size = 0) : a ∉ t.cover := by
  rw [cover, mem_addresses, h]
  simp

/-- The one item whose lookup matches every address although it claims none. -/
theorem not_zero_of_inOrder (h : Kept l) (hnew : InOrder (l ++ [item]))
    (haccept : refuses l item = false) : ¬ (item.addr = 0 ∧ item.size = 0) := by
  rintro ⟨haddr, hsize⟩
  have hall : item.holds 0 = true := by
    unfold holds
    rw [haddr, hsize]
    decide
  obtain ⟨t, ht, hclaim⟩ := hnew.finds.claimed (List.mem_append_right l List.mem_cons_self) hall
  rcases List.mem_append.mp ht with ht | ht
  · -- then an item that starts at zero would have refused it
    have hshares : t.sharesSpace item = true := by
      have hreads := (h.reads t ht).1
      rw [cover, mem_addresses] at hclaim
      have hend := end_toNat t.addr t.size
      have hs := t.size.isLt
      unfold sharesSpace
      rw [haddr, hsize]
      simp only [Bool.or_eq_true, Bool.and_eq_true, decide_eq_true_eq, ge_iff_le, BitVec.le_def,
        BitVec.lt_def]
      simp at hclaim ⊢
      omega
    rw [refuses, List.any_eq_false] at haccept
    exact haccept t ht hshares
  · exact cover_empty (List.mem_singleton.mp ht ▸ hsize) hclaim

theorem kept_snoc (h : Kept l) (hnew : InOrder (l ++ [item])) (haccept : refuses l item = false) :
    Kept (l ++ [item]) where
  apart := hnew.apart
  reads t ht := by
    rcases List.mem_append.mp ht with ht' | ht'
    · exact h.reads t ht'
    · rw [List.mem_singleton.mp ht']
      exact reads_of_holds (not_zero_of_inOrder h hnew haccept) fun hz =>
        hnew.finds.passes (List.mem_append_right l List.mem_cons_self) (base_mem_addresses hz)

/-- Two items that can be read and overlap: one of the tests sees it, unless the upper one goes on
to the last address. -/
theorem sharesSpace_of_overlap (ht : t.Reads) (hitem : item.Reads)
    (hlow : ¬ (t.ToTheEnd ∧ t.addr ≤ item.addr)) (hhigh : ¬ (item.ToTheEnd ∧ item.addr ≤ t.addr))
    (h : ¬ Disjoint t.cover item.cover) : t.sharesSpace item = true := by
  obtain ⟨a, ha, hb⟩ := Set.not_disjoint_iff.mp h
  have hsize : t.size ≠ 0 := fun hz => cover_empty hz ha
  have hsize' : item.size ≠ 0 := fun hz => cover_empty hz hb
  rw [cover, mem_addresses] at ha hb
  have ht' := ht.1
  have hitem' := hitem.1
  have hend := end_toNat t.addr t.size
  have hend' := end_toNat item.addr item.size
  have hlow' : ¬ (t.addr.toNat + t.size.toNat = 2 ^ 32 ∧ t.addr.toNat ≤ item.addr.toNat) :=
    fun hn => hlow ⟨⟨hsize, hn.1⟩, hn.2⟩
  have hhigh' : ¬ (item.addr.toNat + item.size.toNat = 2 ^ 32 ∧ item.addr.toNat ≤ t.addr.toNat) :=
    fun hn => hhigh ⟨⟨hsize', hn.1⟩, hn.2⟩
  unfold sharesSpace
  simp only [Bool.or_eq_true, Bool.and_eq_true, decide_eq_true_eq, ge_iff_le, BitVec.le_def,
    BitVec.lt_def]
  omega

/-- Two items with addresses, the upper one going on to the last address, overlap there. -/
theorem overlap_toTheEnd {u v : PmaItem} (hu : u.ToTheEnd) (hle : u.addr ≤ v.addr)
    (hv : v.size ≠ 0) : ¬ Disjoint u.cover v.cover := by
  refine Set.not_disjoint_iff.mpr ⟨v.addr, ?_, base_mem_addresses hv⟩
  have hb := v.addr.isLt
  have hend := hu.2
  exact ⟨hle, by omega⟩

/-- **One request.** -/
theorem handled_iff (h : Kept l) : Handled l item ↔ Fits l item := by
  by_cases hrefuse : refuses l item = true
  · have hnone : addFixedPmaItem l item = none := if_pos hrefuse
    refine iff_of_true ⟨fun _ _ _ => hnone, ?_⟩ (.inl hrefuse)
    rw [hnone]
    exact h.inOrder
  · have haccept : refuses l item = false := Bool.eq_false_iff.mpr hrefuse
    have hsome : addFixedPmaItem l item = some (l ++ [item]) := if_neg hrefuse
    constructor
    · intro hhandled
      have hnew := hhandled.inOrder
      rw [hsome] at hnew
      have hreads := (kept_snoc h hnew haccept).reads item
        (List.mem_append_right l List.mem_cons_self)
      refine .inr ⟨hreads, fun hz t ht htz => ?_⟩
      have hdisjoint := (apart_snoc.mp hnew.apart).2 t ht
      exact ⟨fun hn => overlap_toTheEnd hn.1 hn.2 hz hdisjoint,
        fun hn => overlap_toTheEnd hn.1 hn.2 htz hdisjoint.symm⟩
    · intro hfits
      obtain ⟨hreads, hends⟩ := hfits.resolve_left hrefuse
      have hdisjoint : ∀ t ∈ l, Disjoint t.cover item.cover := by
        intro t ht
        by_contra hoverlap
        obtain ⟨a, ha, hb⟩ := Set.not_disjoint_iff.mp hoverlap
        obtain ⟨hlow, hhigh⟩ := hends (fun hz => cover_empty hz hb) t ht
          (fun hz => cover_empty hz ha)
        exact hrefuse (List.any_eq_true.mpr
          ⟨t, ht, sharesSpace_of_overlap (h.reads t ht) hreads hlow hhigh hoverlap⟩)
      refine ⟨fun t ht hoverlap => absurd (hdisjoint t ht) hoverlap, ?_⟩
      rw [hsome]
      refine Kept.inOrder ⟨apart_snoc.mpr ⟨h.apart, hdisjoint⟩, fun t ht => ?_⟩
      rcases List.mem_append.mp ht with ht | ht
      · exact h.reads t ht
      · exact List.mem_singleton.mp ht ▸ hreads

theorem kept_next (h : Kept l) (hhandled : Handled l item) : Kept (next refuses l item) := by
  have hnew := hhandled.inOrder
  unfold addFixedPmaItem at hnew
  unfold next
  split
  · exact h
  · rename_i hrefuse
    rw [if_neg hrefuse] at hnew
    exact kept_snoc h hnew (Bool.eq_false_iff.mpr hrefuse)

end PmaItem

/-! ## Runs of requests -/

/-- The requests of a run of `map` calls are handled, from the empty map on. -/
def BusRange.RunHandled (reqs : List BusRange) : Prop :=
  Always (fun l req => checkAddrOverride l req.base req.size) Handled [] reqs

/-- They fit. -/
def BusRange.RunFits (reqs : List BusRange) : Prop :=
  Always (fun l req => checkAddrOverride l req.base req.size) Fits [] reqs

/-- The same for `add_fixed_pma_item`. -/
def PmaItem.RunHandled (reqs : List PmaItem) : Prop := Always refuses Handled [] reqs

def PmaItem.RunFits (reqs : List PmaItem) : Prop := Always refuses Fits [] reqs

/-- **When the address maps stay in order.** For every sequence of requests, all of them are
handled, so that the map is in order after each and no overlap is accepted, exactly when each is
refused or reaches no address the 32-bit end of a range cannot express. -/
theorem maps_inOrder_iff (ranges : List BusRange) (items : List PmaItem) :
    (BusRange.RunHandled ranges ↔ BusRange.RunFits ranges) ∧
      (PmaItem.RunHandled items ↔ PmaItem.RunFits items) := by
  constructor
  · have hiff (l : List BusRange) (req : BusRange) (h : BusRange.InOrder l) :
        BusRange.Handled l req ↔ BusRange.Fits l req := BusRange.handled_iff h
    refine always_iff hiff (fun l req _ hhandled => ?_) ranges [] BusRange.inOrder_nil
    exact BusRange.map_eq ▸ hhandled.inOrder
  · have hiff (l : List PmaItem) (item : PmaItem) (h : PmaItem.Kept l) :
        PmaItem.Handled l item ↔ PmaItem.Fits l item := PmaItem.handled_iff h
    have hnil : PmaItem.Kept [] := ⟨List.Pairwise.nil, fun _ ht => by cases ht⟩
    exact always_iff hiff (fun l item h hhandled => PmaItem.kept_next h hhandled) items [] hnil

/-- The last page of the address space: mapped on a bus it is never found. In the `pma_unit` a
range inside it is accepted after it. -/
theorem maps_lastPage_notInOrder :
    ¬ BusRange.RunHandled [⟨0xFFFFF000, 0x1000, true⟩] ∧
      ¬ PmaItem.RunHandled [⟨0xFFFFF000, 0x1000, true⟩, ⟨0xFFFFF800, 0x100, false⟩] := by
  refine ⟨fun h => ?_, fun h => ?_⟩
  · have hfinds := h.1.inOrder.finds false 0xFFFFF000 0
    have hclaimed : (0xFFFFF000 : Word) ∈
        BusRange.coverFor false ⟨0xFFFFF000, 0x1000, true⟩ :=
      ⟨by rw [BusRange.cover, mem_addresses]; decide, fun h => by cases h⟩
    have hfound := hfinds.mpr ⟨_, rfl, hclaimed⟩
    revert hfound
    decide
  · have hapart := h.2.1.inOrder.apart
    have hdisjoint := (apart_snoc (l := [_]).mp hapart).2 _ List.mem_cons_self
    have hmem : (0xFFFFF800 : Word) ∈ PmaItem.cover ⟨0xFFFFF000, 0x1000, true⟩ ∧
        (0xFFFFF800 : Word) ∈ PmaItem.cover ⟨0xFFFFF800, 0x100, false⟩ := by
      rw [PmaItem.cover, PmaItem.cover, mem_addresses, mem_addresses]
      decide
    exact Set.disjoint_left.mp hdisjoint hmem.1 hmem.2

end DreamCore
