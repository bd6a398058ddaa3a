import DreamCore.Lib.CountedStack
import DreamCore.Pipeline.Fetch1

/-!
# The return address stack

`ras` is a stack of registers: every operation of a cycle reads what the last
cycle left and writes what the next one will find. One instruction may pop and
push in one cycle, and a group of instructions may hold several calls and
returns.

What it is for is `ReturnStack`, a bounded stack of addresses with repeat counts,
on which the operations of a cycle take place one after the other. `Fits` says of
a cycle that the registers keep up with it, and runs of such cycles are
indistinguishable from the stack.
-/

namespace DreamCore

/-- What the component is for. -/
abbrev ReturnStack := CountedStack Word rasSize 0xffffffff

instance : NeZero rasSize := ⟨by decide⟩

/-- The operations of `fetch1::run`. -/
inductive RasOp where
  | push (addr : Word)
  | pop

/-- One operation of a cycle: it reads `cur` and writes to the snapshot the operations before it
have written to. The addresses popped are collected. -/
def RasOp.apply (cur : Ras) (st : List Word × Ras) : RasOp → List Word × Ras
  | .push addr => (st.1, cur.pushAddr st.2 addr)
  | .pop => (st.1 ++ [(cur.popAddr st.2).1], (cur.popAddr st.2).2)

/-- The operations of a cycle, on the way. -/
def Ras.operate (cur : Ras) (ops : List RasOp) (st : List Word × Ras) : List Word × Ras :=
  ops.foldl (RasOp.apply cur) st

/-- A cycle: the addresses popped, and the registers after `sync`. -/
def Ras.cycle (r : Ras) (ops : List RasOp) : List Word × Ras := r.operate ops ([], r)

/-- The same operation on the stack. -/
def RasOp.step (st : List Word × ReturnStack) : RasOp → List Word × ReturnStack
  | .push addr => (st.1, st.2.push addr)
  | .pop => (st.1 ++ [st.2.pop.1], st.2.pop.2)

/-- The operations of a cycle, one after the other. -/
def stackCycle (s : ReturnStack) (ops : List RasOp) : List Word × ReturnStack :=
  ops.foldl RasOp.step ([], s)

/-! ## The registers as a stack -/

/-- An entry of the stack. -/
def RasItem.entry (item : RasItem) : Word × Nat := (item.addr, item.cnt.toNat)

/-- The entries below a pointer, the top first. -/
def entriesOf (buffer : Nat → RasItem) : Nat → List (Word × Nat)
  | 0 => []
  | n + 1 => (buffer n).entry :: entriesOf buffer n

/-- **The registers hold the stack.** `last_addr` is only kept up to date where it is read. -/
structure HoldsStack (r : Ras) (s : ReturnStack) : Prop where
  entries : entriesOf r.buffer r.topPtr = s.entries
  last : s.entries = [] → r.lastAddr = s.last

variable {r new : Ras} {s : ReturnStack} {a x : Word} {c : Nat} {rest : List (Word × Nat)}

@[simp] theorem entriesOf_length (buffer : Nat → RasItem) (n : Nat) :
    (entriesOf buffer n).length = n := by
  induction n with
  | zero => rfl
  | succ n ih => rw [entriesOf, List.length_cons, ih]

theorem entriesOf_congr {b b' : Nat → RasItem} {n : Nat} (h : ∀ i < n, b i = b' i) :
    entriesOf b n = entriesOf b' n := by
  induction n with
  | zero => rfl
  | succ n ih =>
      rw [entriesOf, entriesOf, h n (Nat.lt_succ_self n),
        ih fun i hi => h i (Nat.lt_succ_of_lt hi)]

/-- A write at the pointer or above it is not seen. -/
theorem entriesOf_update {b : Nat → RasItem} {n k : Nat} (h : n ≤ k) (item : RasItem) :
    entriesOf (Function.update b k item) n = entriesOf b n :=
  entriesOf_congr fun i hi => Function.update_of_ne (by omega) _ _

/-- Moving every entry down by one drops the oldest. -/
theorem entriesOf_shift (b : Nat → RasItem) (n : Nat) :
    entriesOf (fun i => b (i + 1)) n = (entriesOf b (n + 1)).dropLast := by
  induction n with
  | zero => rfl
  | succ n ih =>
      rw [entriesOf, ih, entriesOf]
      cases h : entriesOf b (n + 1) with
      | nil => cases h
      | cons e l => rfl

theorem HoldsStack.topPtr (h : HoldsStack r s) : r.topPtr = s.entries.length := by
  rw [← h.entries, entriesOf_length]

/-- The register on top. -/
theorem HoldsStack.top (h : HoldsStack r s) (he : s.entries = (x, c) :: rest) :
    (r.buffer rest.length).entry = (x, c) ∧ entriesOf r.buffer rest.length = rest := by
  have hentries := h.entries
  rw [h.topPtr, he, List.length_cons, entriesOf] at hentries
  exact List.cons.inj hentries

/-- The test of `push_addr`. -/
theorem HoldsStack.repeats_iff (h : HoldsStack r s) (a : Word) :
    (r.topPtr ≠ 0 ∧ (r.buffer (r.topPtr - 1)).addr = a
      ∧ (r.buffer (r.topPtr - 1)).cnt < 0xffffffff) ↔ s.Repeats a := by
  rw [CountedStack.repeats_iff, h.topPtr]
  cases he : s.entries with
  | nil => simp
  | cons e rest =>
      obtain ⟨x, c⟩ := e
      obtain ⟨htop, -⟩ := h.top he
      have hx : (r.buffer rest.length).addr = x := congrArg Prod.fst htop
      have hc : (r.buffer rest.length).cnt.toNat = c := congrArg Prod.snd htop
      rw [List.length_cons, Nat.add_sub_cancel, hx, BitVec.lt_def, hc]
      constructor
      · rintro ⟨-, rfl, hlt⟩
        exact ⟨c, rest, rfl, hlt⟩
      · rintro ⟨c', rest', heq, hlt⟩
        cases heq
        exact ⟨by omega, rfl, hlt⟩

/-! ## What an operation writes -/

theorem HoldsStack.pushAddr_repeats (h : HoldsStack r s) (he : s.entries = (a, c) :: rest)
    (hc : c < 0xffffffff) (new : Ras) :
    r.pushAddr new a =
      { new with
        buffer := Function.update new.buffer rest.length
          ⟨a, (r.buffer rest.length).cnt + 1⟩ } := by
  have hrepeats := (h.repeats_iff a).mpr (CountedStack.repeats_iff.mpr ⟨c, rest, he, hc⟩)
  have htop : r.topPtr - 1 = rest.length := by rw [h.topPtr, he]; rfl
  unfold Ras.pushAddr
  rw [if_pos hrepeats]
  have haddr := hrepeats.2.1
  rw [htop] at haddr ⊢
  rw [haddr]

theorem HoldsStack.pushAddr_full (h : HoldsStack r s) (hr : ¬ s.Repeats a)
    (hfull : s.entries.length = rasSize) (new : Ras) :
    r.pushAddr new a = r.throwPush new ⟨a, 1⟩ := by
  unfold Ras.pushAddr
  rw [if_neg (fun hrepeats => hr ((h.repeats_iff a).mp hrepeats)), h.topPtr, if_pos hfull]

theorem HoldsStack.pushAddr_room (h : HoldsStack r s) (hr : ¬ s.Repeats a)
    (hroom : s.entries.length ≠ rasSize) (new : Ras) :
    r.pushAddr new a =
      { new with
        buffer := Function.update new.buffer s.entries.length ⟨a, 1⟩
        topPtr := s.entries.length + 1 } := by
  unfold Ras.pushAddr
  rw [if_neg (fun hrepeats => hr ((h.repeats_iff a).mp hrepeats)), h.topPtr, if_neg hroom]

theorem HoldsStack.popAddr_empty (h : HoldsStack r s) (he : s.entries = []) (new : Ras) :
    r.popAddr new = (s.last, new) := by
  have htop : r.topPtr = 0 := by rw [h.topPtr, he]; rfl
  unfold Ras.popAddr
  rw [if_pos htop, h.last he]

theorem HoldsStack.popAddr_last (h : HoldsStack r s) (he : s.entries = (x, 1) :: rest)
    (new : Ras) :
    r.popAddr new = (x, { new with lastAddr := x, topPtr := rest.length }) := by
  have htop : r.topPtr = rest.length + 1 := by rw [h.topPtr, he]; rfl
  obtain ⟨hentry, -⟩ := h.top he
  have hx : (r.buffer rest.length).addr = x := congrArg Prod.fst hentry
  have hc : (r.buffer rest.length).cnt = 1 := BitVec.eq_of_toNat_eq (congrArg Prod.snd hentry)
  unfold Ras.popAddr
  rw [htop, if_neg (Nat.succ_ne_zero _), Nat.add_sub_cancel]
  simp only [hc, if_true, hx]

theorem HoldsStack.popAddr_more (h : HoldsStack r s) (he : s.entries = (x, c) :: rest)
    (hc : c ≠ 1) (new : Ras) :
    r.popAddr new =
      (x, { new with
        buffer := Function.update new.buffer rest.length
          ⟨x, (r.buffer rest.length).cnt - 1⟩ }) := by
  have htop : r.topPtr = rest.length + 1 := by rw [h.topPtr, he]; rfl
  obtain ⟨hentry, -⟩ := h.top he
  have hx : (r.buffer rest.length).addr = x := congrArg Prod.fst hentry
  have hcnt : (r.buffer rest.length).cnt ≠ 1 := by
    intro hone
    exact hc ((congrArg Prod.snd hentry).symm.trans (congrArg BitVec.toNat hone))
  unfold Ras.popAddr
  rw [htop, if_neg (Nat.succ_ne_zero _), Nat.add_sub_cancel]
  simp only [hcnt, if_false, hx]

/-! ## Cycles the registers keep up with -/

/-- A new entry finds room, or the two entries on top are the same: when it moves the entries down,
`throw_push` leaves out the one below the top and writes over the top. -/
def FitsPush (s : ReturnStack) (a : Word) : Prop :=
  s.Repeats a ∨ s.entries.length ≠ rasSize ∨ s.entries.head? = s.entries[1]?

/-- After a pop that found an entry, a push in the same cycle still sees the entry as it was: the
entry must stay on the stack, with a count, and the address must be another one. -/
def FitsAfterPop (s : ReturnStack) : List RasOp → Prop
  | [] => True
  | [.push a] =>
      match s.entries with
      | [] => False
      | (x, c) :: rest =>
          c ≠ 1 ∧ x ≠ a ∧ (s.entries.length = rasSize → rest.head? = some (x, c - 1))
  | _ => False

/-- **The registers keep up with the operations of a cycle.** -/
def Fits (s : ReturnStack) : List RasOp → Prop
  | [] => True
  | [.push a] => FitsPush s a
  | .push _ :: _ :: _ => False
  | .pop :: ops => FitsAfterPop s ops ∨ s.entries = [] ∧ Fits s ops

instance (s : ReturnStack) (a : Word) : Decidable (FitsPush s a) := by
  unfold FitsPush
  infer_instance

instance (s : ReturnStack) (ops : List RasOp) : Decidable (FitsAfterPop s ops) := by
  unfold FitsAfterPop
  split
  · infer_instance
  · split <;> infer_instance
  · infer_instance

instance decidableFits (s : ReturnStack) : (ops : List RasOp) → Decidable (Fits s ops)
  | [] => inferInstanceAs (Decidable True)
  | [.push a] => inferInstanceAs (Decidable (FitsPush s a))
  | .push _ :: _ :: _ => inferInstanceAs (Decidable False)
  | .pop :: ops =>
      have := decidableFits s ops
      inferInstanceAs (Decidable (FitsAfterPop s ops ∨ s.entries = [] ∧ Fits s ops))

/-! ### A push -/

/-- The registers after `throw_push`. The second entry from the top is what the cycle has left
there, not the entry that was on top. -/
theorem entriesOf_throwPush (h : HoldsStack r s) {e : Word × Nat} (he : s.entries = e :: rest)
    (hfull : s.entries.length = rasSize) (new : Ras) (a : Word) :
    entriesOf (r.throwPush new ⟨a, 1⟩).buffer rasSize
      = (a, 1) :: (new.buffer 254).entry :: rest.dropLast := by
  have htop : r.topPtr = 256 := by rw [h.topPtr, hfull]; rfl
  have hrest : entriesOf r.buffer 255 = rest := by
    have hlen : rest.length = 255 := by
      rw [he] at hfull
      exact Nat.succ.inj hfull
    exact hlen ▸ (h.top he).2
  unfold Ras.throwPush
  rw [show rasSize = 254 + 1 + 1 from rfl, entriesOf, entriesOf, htop]
  have hbelow : entriesOf (Function.update (fun i => if i + 2 < 256 then r.buffer (i + 1)
      else new.buffer i) (256 - 1) ⟨a, 1⟩) 254 = rest.dropLast := by
    rw [← hrest, ← entriesOf_shift]
    refine entriesOf_congr fun i hi => ?_
    rw [Function.update_of_ne (by omega), if_pos (by omega)]
  rw [hbelow]
  rfl

theorem entriesOf_pushRoom (h : HoldsStack r s) (a : Word) :
    entriesOf (Function.update r.buffer s.entries.length ⟨a, 1⟩) (s.entries.length + 1)
      = (a, 1) :: s.entries := by
  rw [entriesOf, Function.update_self, entriesOf_update (Nat.le_refl _), ← h.topPtr, h.entries]
  rfl

/-- The entries a push leaves, for every stack. -/
theorem HoldsStack.pushAddr_entries (h : HoldsStack r s) (a : Word) :
    entriesOf (r.pushAddr r a).buffer (r.pushAddr r a).topPtr
        = (if ¬ s.Repeats a ∧ s.entries.length = rasSize then
            (a, 1) :: (r.buffer 254).entry :: s.entries.tail.dropLast
          else s.pushed a) := by
  by_cases hr : s.Repeats a
  · obtain ⟨c, rest, he, hc⟩ := CountedStack.repeats_iff.mp hr
    obtain ⟨hentry, hrest⟩ := h.top he
    have hcnt : (r.buffer rest.length).cnt.toNat = c := congrArg Prod.snd hentry
    have hmore : ((r.buffer rest.length).cnt + 1).toNat = c + 1 := by
      rw [BitVec.toNat_add, hcnt]
      exact Nat.mod_eq_of_lt (by simp at hc ⊢; omega)
    rw [if_neg (fun hn => hn.1 hr), h.pushAddr_repeats he hc, CountedStack.pushed_repeats he hc]
    simp only [h.topPtr, he, List.length_cons, entriesOf, Function.update_self,
      entriesOf_update (Nat.le_refl _), hrest, RasItem.entry, hmore]
  · by_cases hfull : s.entries.length = rasSize
    · rw [if_pos ⟨hr, hfull⟩, h.pushAddr_full hr hfull]
      cases he : s.entries with
      | nil =>
          rw [he] at hfull
          cases hfull
      | cons e rest =>
          have htop : (r.throwPush r ⟨a, 1⟩).topPtr = rasSize := h.topPtr.trans hfull
          rw [htop]
          exact entriesOf_throwPush h he hfull r a
    · rw [if_neg (fun hn => hfull hn.2), h.pushAddr_room hr hfull,
        CountedStack.pushed_room hr hfull]
      exact entriesOf_pushRoom h a

theorem pushed_ne_nil (s : ReturnStack) (a : Word) : s.pushed a ≠ [] := by
  by_cases hr : s.Repeats a
  · obtain ⟨c, rest, he, hc⟩ := CountedStack.repeats_iff.mp hr
    rw [CountedStack.pushed_repeats he hc]
    exact List.cons_ne_nil _ _
  · by_cases hfull : s.entries.length = rasSize
    · rw [CountedStack.pushed_full hr hfull]
      exact List.cons_ne_nil _ _
    · rw [CountedStack.pushed_room hr hfull]
      exact List.cons_ne_nil _ _

/-- A full stack has two entries on top, and the second is in the register `throw_push` reads. -/
theorem HoldsStack.second (h : HoldsStack r s) (hfull : s.entries.length = rasSize) :
    ∃ e rest, s.entries = e :: (r.buffer 254).entry :: rest ∧ rest.length = 254 := by
  have hentries : entriesOf r.buffer (254 + 1 + 1) = s.entries := by
    rw [← h.entries, h.topPtr, hfull]
    rfl
  rw [entriesOf, entriesOf] at hentries
  exact ⟨_, _, hentries.symm, entriesOf_length _ _⟩

theorem holdsStack_push_iff (r' : Ras) (s : ReturnStack) (a : Word) :
    HoldsStack r' (s.push a) ↔ entriesOf r'.buffer r'.topPtr = s.pushed a :=
  ⟨fun hrep => hrep.entries, fun heq => ⟨heq, fun hnil => absurd hnil (pushed_ne_nil s a)⟩⟩

/-- **A push alone in its cycle**: the registers follow the stack exactly when it fits. -/
theorem HoldsStack.push_iff (h : HoldsStack r s) (a : Word) :
    HoldsStack (r.pushAddr r a) (s.push a) ↔ FitsPush s a := by
  rw [holdsStack_push_iff, h.pushAddr_entries]
  by_cases hnew : ¬ s.Repeats a ∧ s.entries.length = rasSize
  · obtain ⟨e, rest, he, hlen⟩ := h.second hnew.2
    have hdrop : s.entries.dropLast = e :: s.entries.tail.dropLast := by rw [he]; rfl
    rw [if_pos hnew, CountedStack.pushed_full hnew.1 hnew.2, hdrop, List.cons.injEq,
      List.cons.injEq]
    unfold FitsPush
    constructor
    · rintro ⟨-, heq, -⟩
      rw [he, heq]
      exact .inr (.inr rfl)
    · rintro (hrepeats | hroom | heq)
      · exact absurd hrepeats hnew.1
      · exact absurd hnew.2 hroom
      · rw [he] at heq
        exact ⟨rfl, (Option.some.inj heq).symm, rfl⟩
  · rw [if_neg hnew]
    refine iff_of_true rfl ?_
    by_cases hr : s.Repeats a
    · exact .inl hr
    · exact .inr (.inl fun hfull => hnew ⟨hr, hfull⟩)

/-! ### A pop -/

theorem HoldsStack.popped (h : HoldsStack r s) :
    (r.popAddr r).1 = s.pop.1 ∧ HoldsStack (r.popAddr r).2 s.pop.2 := by
  cases he : s.entries with
  | nil =>
      rw [h.popAddr_empty he, CountedStack.pop_empty he]
      exact ⟨rfl, h⟩
  | cons e rest =>
      obtain ⟨x, c⟩ := e
      obtain ⟨hval, hlast, hrest⟩ := CountedStack.pop_cons he
      obtain ⟨hentry, hbelow⟩ := h.top he
      by_cases hc : c = 1
      · subst hc
        rw [h.popAddr_last he, hval]
        refine ⟨rfl, ⟨?_, fun _ => hlast.symm⟩⟩
        rw [hrest, if_pos rfl]
        exact hbelow
      · have hcnt : (r.buffer rest.length).cnt.toNat = c := congrArg Prod.snd hentry
        have hpos : 0 < c := (s.counted (x, c) (he ▸ List.mem_cons_self)).1
        have hless : ((r.buffer rest.length).cnt - 1).toNat = c - 1 := by
          rw [BitVec.toNat_sub, hcnt]
          have hlt := (r.buffer rest.length).cnt.isLt
          simp
          omega
        rw [h.popAddr_more he hc, hval]
        refine ⟨rfl, ⟨?_, ?_⟩⟩
        · rw [hrest, if_neg hc]
          simp only [h.topPtr, he, List.length_cons, entriesOf, Function.update_self,
            entriesOf_update (Nat.le_refl _), hbelow, RasItem.entry, hless]
        · intro hnil
          rw [hrest, if_neg hc] at hnil
          cases hnil

/-! ### A pop, then a push -/

theorem pushed_length_le (s : ReturnStack) (a : Word) :
    (s.pushed a).length ≤ s.entries.length + 1 := by
  by_cases hr : s.Repeats a
  · obtain ⟨c, rest, he, hc⟩ := CountedStack.repeats_iff.mp hr
    rw [CountedStack.pushed_repeats he hc, he]
    exact Nat.le_succ _
  · by_cases hfull : s.entries.length = rasSize
    · rw [CountedStack.pushed_full hr hfull, List.length_cons, List.length_dropLast]
      omega
    · rw [CountedStack.pushed_room hr hfull, List.length_cons]

/-- A push changes a stack that is not full: the count on top, or the length. -/
theorem pushed_room_ne (hroom : s.entries.length ≠ rasSize) (a : Word) :
    (s.pushed a).head? ≠ s.entries.head? ∨ (s.pushed a).length = s.entries.length + 1 := by
  by_cases hr : s.Repeats a
  · obtain ⟨c, rest, he, hc⟩ := CountedStack.repeats_iff.mp hr
    rw [CountedStack.pushed_repeats he hc, he]
    exact .inl (by simp)
  · rw [CountedStack.pushed_room hr hroom]
    exact .inr rfl

/-- When the pop takes the last of the entry, the push undoes the pop or is itself undone. -/
theorem HoldsStack.popPush_last (h : HoldsStack r s) (he : s.entries = (x, 1) :: rest) (a : Word) :
    ¬ HoldsStack (r.pushAddr (r.popAddr r).2 a) (s.pop.2.push a) := by
  intro hrep
  have hpushed := hrep.entries
  obtain ⟨-, -, hrest⟩ := CountedStack.pop_cons he
  rw [if_pos rfl] at hrest
  obtain ⟨-, hbelow⟩ := h.top he
  have hlen : rest.length + 1 ≤ rasSize := by
    have hbound := s.bounded
    rwa [he] at hbound
  have hle := pushed_length_le s.pop.2 a
  have hne := pushed_room_ne (s := s.pop.2) (by rw [hrest]; omega) a
  change _ = s.pop.2.pushed a at hpushed
  rw [hrest] at hle hne
  rw [h.popAddr_last he] at hpushed
  by_cases hr : s.Repeats a
  · -- the count goes to the entry above the pointer
    obtain ⟨c, rest', he', hc⟩ := CountedStack.repeats_iff.mp hr
    have hsame : rest' = rest := (List.cons.inj (he'.symm.trans he)).2
    subst hsame
    rw [h.pushAddr_repeats he' hc, entriesOf_update (Nat.le_refl _), hbelow] at hpushed
    rcases hne with hne | hne
    · exact hne (congrArg List.head? hpushed.symm)
    · exact absurd (congrArg List.length hpushed) (by omega)
  · by_cases hfull : s.entries.length = rasSize
    · -- `throw_push` writes to the entry above the pointer
      rw [h.pushAddr_full hr hfull] at hpushed
      obtain ⟨e, below, hsecond, -⟩ := h.second hfull
      have hhead : rest.head? = some (r.buffer 254).entry := by
        have heq := he.symm.trans hsecond
        rw [(List.cons.inj heq).2]
        rfl
      have h255 : rest.length = 255 := by
        rw [he] at hfull
        exact Nat.succ.inj hfull
      have hthrow (new : Ras) : entriesOf (r.throwPush new ⟨a, 1⟩).buffer 255
          = (new.buffer 254).entry :: rest.dropLast :=
        (List.cons.inj (entriesOf_throwPush h he hfull new a)).2
      replace hpushed := (hthrow _).symm.trans ((congrArg (entriesOf _) h255.symm).trans hpushed)
      rcases hne with hne | hne
      · exact hne (by rw [← hpushed, hhead]; rfl)
      · have hlength := congrArg List.length hpushed
        rw [List.length_cons, List.length_dropLast] at hlength
        omega
    · -- the new entry goes on top of the one that was popped
      rw [h.pushAddr_room hr hfull] at hpushed
      have hroom := entriesOf_pushRoom h a
      have hlength := congrArg List.length (hroom.symm.trans hpushed)
      rw [List.length_cons, he, List.length_cons] at hlength
      omega

/-- When the pop only lowers a count and the same address is pushed, the stack has the old count
again; the registers count the push from before the pop. -/
theorem HoldsStack.popPush_same (h : HoldsStack r s) (he : s.entries = (x, c) :: rest)
    (hc : c ≠ 1) : ¬ HoldsStack (r.pushAddr (r.popAddr r).2 x) (s.pop.2.push x) := by
  rw [holdsStack_push_iff]
  obtain ⟨-, -, hrest⟩ := CountedStack.pop_cons he
  rw [if_neg hc] at hrest
  have hcount := s.counted (x, c) (he ▸ List.mem_cons_self)
  simp only at hcount
  have htop : r.topPtr = rest.length + 1 := by rw [h.topPtr, he]; rfl
  have hsame : s.pop.2.pushed x = (x, c) :: rest := by
    rw [CountedStack.pushed_repeats hrest (by omega)]
    congr 2
    omega
  rw [hsame]
  by_cases hr : s.Repeats x
  · obtain ⟨c', rest', he', hc'⟩ := CountedStack.repeats_iff.mp hr
    obtain ⟨hpair, hsuffix⟩ := List.cons.inj (he'.symm.trans he)
    obtain rfl : c' = c := congrArg Prod.snd hpair
    subst hsuffix
    have hcnt : ((r.buffer rest'.length).cnt + 1).toNat = c' + 1 := by
      rw [BitVec.toNat_add, show (r.buffer rest'.length).cnt.toNat = c' from
        congrArg Prod.snd (h.top he).1]
      exact Nat.mod_eq_of_lt (by simp at hc' ⊢; omega)
    rw [h.pushAddr_repeats he' hc', h.popAddr_more he hc, htop, entriesOf]
    simp only [Function.update_self]
    intro heq
    have hcount' : ((r.buffer rest'.length).cnt + 1).toNat = c' :=
      congrArg Prod.snd (List.cons.inj heq).1
    omega
  · by_cases hfull : s.entries.length = rasSize
    · have hthrow := entriesOf_throwPush h he hfull (r.popAddr r).2 x
      have hptr : (r.throwPush (r.popAddr r).2 ⟨x, 1⟩).topPtr = rasSize := by
        rw [h.popAddr_more he hc]
        exact h.topPtr.trans hfull
      rw [h.pushAddr_full hr hfull, hptr, hthrow]
      intro heq
      exact hc (congrArg Prod.snd (List.cons.inj heq).1).symm
    · rw [h.pushAddr_room hr hfull]
      intro heq
      have hlength := congrArg List.length heq
      rw [entriesOf_length, he] at hlength
      exact absurd hlength (Nat.succ_ne_self _)

/-- When the pop only lowers a count and another address is pushed, the registers follow if the
new entry finds room, or if the entry below happens to be what the pop leaves on top. -/
theorem HoldsStack.popPush_other (h : HoldsStack r s) (he : s.entries = (x, c) :: rest)
    (hc : c ≠ 1) (hxa : x ≠ a) :
    HoldsStack (r.pushAddr (r.popAddr r).2 a) (s.pop.2.push a) ↔
      (s.entries.length = rasSize → rest.head? = some (x, c - 1)) := by
  rw [holdsStack_push_iff]
  obtain ⟨-, -, hrest⟩ := CountedStack.pop_cons he
  rw [if_neg hc] at hrest
  obtain ⟨-, hpopped⟩ := h.popped
  have htop : r.topPtr = rest.length + 1 := by rw [h.topPtr, he]; rfl
  have hnot (s' : ReturnStack) (d : Nat) (hs : s'.entries = (x, d) :: rest) : ¬ s'.Repeats a := by
    intro hr
    obtain ⟨c', rest', he', -⟩ := CountedStack.repeats_iff.mp hr
    exact hxa (congrArg Prod.fst (List.cons.inj (hs.symm.trans he')).1)
  have hr := hnot s c he
  have hr' := hnot s.pop.2 (c - 1) hrest
  have hlen : s.pop.2.entries.length = s.entries.length := by rw [hrest, he]; rfl
  by_cases hfull : s.entries.length = rasSize
  · obtain ⟨e, below, hsecond, hbelowLen⟩ := h.second hfull
    have hsuffix : rest = (r.buffer 254).entry :: below :=
      (List.cons.inj (he.symm.trans hsecond)).2
    have hptr : (r.throwPush (r.popAddr r).2 ⟨a, 1⟩).topPtr = rasSize := by
      rw [h.popAddr_more he hc]
      exact h.topPtr.trans hfull
    -- the pop writes to the top, which is not the register below it
    have hregister : (r.popAddr r).2.buffer 254 = r.buffer 254 := by
      rw [h.popAddr_more he hc, hsuffix, List.length_cons, hbelowLen]
      simp [Function.update_of_ne]
    have hdrop : ((x, c - 1) :: rest).dropLast = (x, c - 1) :: rest.dropLast := by
      rw [hsuffix]
      rfl
    have hhead : rest.head? = some (r.buffer 254).entry := by rw [hsuffix]; rfl
    rw [h.pushAddr_full hr hfull, hptr, entriesOf_throwPush h he hfull, hregister,
      CountedStack.pushed_full hr' (hlen.trans hfull), hrest, hdrop, List.cons.injEq,
      List.cons.injEq, hhead]
    constructor
    · rintro ⟨-, heq, -⟩
      exact fun _ => congrArg some heq
    · intro heq
      exact ⟨rfl, Option.some.inj (heq hfull), rfl⟩
  · rw [h.pushAddr_room hr hfull, CountedStack.pushed_room hr' (hlen ▸ hfull), hrest]
    refine iff_of_true ?_ (fun hf => absurd hf hfull)
    have hlength : s.entries.length = rest.length + 1 := by rw [he]; rfl
    have hkeep := hpopped.entries
    rw [hrest, h.popAddr_more he hc] at hkeep
    simp only [htop] at hkeep
    rw [h.popAddr_more he hc]
    simp only [hlength]
    rw [entriesOf, Function.update_self, entriesOf_update (Nat.le_refl _), hkeep]
    rfl

/-- **A pop that finds an entry, then a push**: the registers follow exactly when it fits. -/
theorem HoldsStack.popPush_iff (h : HoldsStack r s) (hne : s.entries ≠ []) (a : Word) :
    HoldsStack (r.pushAddr (r.popAddr r).2 a) (s.pop.2.push a) ↔ FitsAfterPop s [.push a] := by
  cases he : s.entries with
  | nil => exact absurd he hne
  | cons e rest =>
      obtain ⟨x, c⟩ := e
      have hfits : FitsAfterPop s [.push a] ↔
          c ≠ 1 ∧ x ≠ a ∧ (s.entries.length = rasSize → rest.head? = some (x, c - 1)) := by
        simp only [FitsAfterPop, he]
      rw [hfits]
      by_cases hc : c = 1
      · subst hc
        exact iff_of_false (h.popPush_last he a) (fun hfit => hfit.1 rfl)
      · by_cases hxa : x = a
        · subst hxa
          exact iff_of_false (h.popPush_same he hc) (fun hfit => hfit.2.1 rfl)
        · rw [h.popPush_other he hc hxa]
          exact ⟨fun hfull => ⟨hc, hxa, hfull⟩, fun hfit => hfit.2.2⟩

/-! ## A cycle -/

/-- The operations of a cycle answer as the stack does and leave it represented. -/
structure LikeStack (got : List Word × Ras) (want : List Word × ReturnStack) : Prop where
  answers : got.1 = want.1
  state : HoldsStack got.2 want.2

/-- **A cycle that fits.** Pops of an empty stack write nothing; what follows them is one operation,
or a pop and the push of the same instruction. -/
theorem HoldsStack.operate_fits (h : HoldsStack r s) :
    ∀ (ops : List RasOp) (outs : List Word), Fits s ops →
      LikeStack (r.operate ops (outs, r)) (ops.foldl RasOp.step (outs, s)) := by
  intro ops
  induction ops with
  | nil => exact fun outs _ => ⟨rfl, h⟩
  | cons op ops ih =>
      intro outs hfits
      cases op with
      | push a =>
          cases ops with
          | nil => exact ⟨rfl, (h.push_iff a).mpr hfits⟩
          | cons op' ops => exact hfits.elim
      | pop =>
          obtain ⟨hanswer, hstate⟩ := h.popped
          by_cases hempty : s.entries = []
          · rcases hfits with hafter | ⟨-, hrest⟩
            · match ops, hafter with
              | [], _ => exact ⟨congrArg (fun v => outs ++ [v]) hanswer, hstate⟩
              | [.push a], hafter => simp [FitsAfterPop, hempty] at hafter
            · -- nothing is written, and the rest of the cycle starts where this one did
              have hregs : (r.popAddr r).2 = r := by rw [h.popAddr_empty hempty]
              have hstack : s.pop.2 = s := by rw [CountedStack.pop_empty hempty]
              have htail := ih (outs ++ [(r.popAddr r).1]) hrest
              change LikeStack (r.operate ops (outs ++ [(r.popAddr r).1], (r.popAddr r).2))
                (ops.foldl RasOp.step (outs ++ [s.pop.1], s.pop.2))
              rw [hregs, hstack, ← hanswer]
              exact htail
          · have hafter : FitsAfterPop s ops := hfits.resolve_right fun hf => hempty hf.1
            match ops, hafter with
            | [], _ => exact ⟨congrArg (fun v => outs ++ [v]) hanswer, hstate⟩
            | [.push a], hafter =>
                exact ⟨congrArg (fun v => outs ++ [v]) hanswer,
                  (h.popPush_iff hempty a).mpr hafter⟩

/-- The operations one instruction can ask for. -/
def OneInstruction (ops : List RasOp) : Prop :=
  ops = [] ∨ ops = [.pop] ∨ (∃ a, ops = [.push a]) ∨ ∃ a, ops = [.pop, .push a]

/-- **The operations of one instruction fit when the cycle comes out right.** -/
theorem HoldsStack.fits_of_agrees (h : HoldsStack r s) {ops : List RasOp}
    (hone : OneInstruction ops) (hagree : LikeStack (r.cycle ops) (stackCycle s ops)) :
    Fits s ops := by
  rcases hone with rfl | rfl | ⟨a, rfl⟩ | ⟨a, rfl⟩
  · trivial
  · exact .inl trivial
  · exact (h.push_iff a).mp hagree.state
  · by_cases hempty : s.entries = []
    · refine .inr ⟨hempty, .inr (.inl ?_)⟩
      rw [hempty]
      decide
    · exact .inl ((h.popPush_iff hempty a).mp hagree.state)

/-! ## What fetch asks for -/

/-- The operations of one word: calls push, returns pop, and a jump from one link register through
the other does both. -/
def rasOps (curPc opcode : Word) : List RasOp :=
  match opcodeOf opcode with
  | 0x6f => if isLink (rdOf opcode) then [.push (curPc + 4)] else []
  | 0x67 =>
      if isLink (rdOf opcode) then
        if isLink (rs1Of opcode) && decide (rs1Of opcode ≠ rdOf opcode) then
          [.pop, .push (curPc + 4)]
        else [.push (curPc + 4)]
      else if isLink (rs1Of opcode) then [.pop] else []
  | _ => []

/-- **One word**: the stack is used as `rasOps` says, and a popped address is the prediction. -/
theorem predictSwitch_returns {cur new : BranchPredictorSet} {i : Nat} {curPc opcode : Word}
    {p : Predicted} (h : predictSwitch cur new i curPc opcode = some p) :
    (cur.mainRas.operate (rasOps curPc opcode) ([], new.mainRas)).2 = p.predictors.mainRas ∧
      ∀ v ∈ (cur.mainRas.operate (rasOps curPc opcode) ([], new.mainRas)).1,
        p.pack.nextPc = v := by
  unfold predictSwitch at h
  split at h
  case h_1 hop =>
    have hops : rasOps curPc opcode
        = if isLink (rdOf opcode) then [.push (curPc + 4)] else [] := by
      unfold rasOps
      rw [hop]
      rfl
    cases h
    rw [hops]
    by_cases hrd : isLink (rdOf opcode) <;> simp [hrd, Ras.operate, RasOp.apply]
  case h_2 hop =>
    have hops : rasOps curPc opcode =
        if isLink (rdOf opcode) then
          if isLink (rs1Of opcode) && decide (rs1Of opcode ≠ rdOf opcode) then
            [.pop, .push (curPc + 4)]
          else [.push (curPc + 4)]
        else if isLink (rs1Of opcode) then [.pop] else [] := by
      unfold rasOps
      rw [hop]
      rfl
    cases h
    rw [hops]
    unfold predictJalr
    by_cases hrd : isLink (rdOf opcode) <;> by_cases hrs1 : isLink (rs1Of opcode) <;>
      by_cases hsame : rs1Of opcode = rdOf opcode <;>
      simp [hrd, hrs1, hsame, Ras.operate, RasOp.apply]
  case h_3 hop =>
    have hops : rasOps curPc opcode = [] := by
      unfold rasOps
      rw [hop]
      rfl
    unfold predictBranch at h
    split at h
    · cases h
    · cases h
      simp [hops, Ras.operate]
  case h_4 h6f h67 _ =>
    have hops : rasOps curPc opcode = [] := by
      unfold rasOps
      split
      · rename_i hop
        exact absurd hop h6f
      · rename_i hop
        exact absurd hop h67
      · rfl
    cases h
    simp [hops, Ras.operate]

theorem operate_state (cur new : Ras) (ops : List RasOp) (outs : List Word) :
    (cur.operate ops (outs, new)).2 = (cur.operate ops ([], new)).2 := by
  induction ops generalizing outs new with
  | nil => rfl
  | cons op ops ih =>
      cases op with
      | push a => exact ih (cur.pushAddr new a) outs
      | pop => exact (ih (cur.popAddr new).2 _).trans (ih (cur.popAddr new).2 _).symm

theorem operate_append (cur new : Ras) (ops ops' : List RasOp) :
    (cur.operate (ops ++ ops') ([], new)).2
      = (cur.operate ops' ([], (cur.operate ops ([], new)).2)).2 := by
  unfold Ras.operate
  rw [List.foldl_append]
  exact operate_state cur _ ops' _

/-- The words kept of a group, with their addresses. -/
abbrev opsOfGroup (words : List (Word × Word)) : List RasOp :=
  words.flatMap fun w => rasOps w.1 w.2

theorem opsOfGroup_append (kept kept' : List (Word × Word)) :
    opsOfGroup (kept ++ kept') = opsOfGroup kept ++ opsOfGroup kept' :=
  List.flatMap_append

theorem fetchLoop_returns {cur : BranchPredictorSet} {idle : Bool} {oldPc : Word} {i : Nat}
    {words : List Word} {st st' : FetchState}
    (h : fetchLoop cur idle oldPc i words st = some st') :
    ∃ kept : List (Word × Word), st'.predictors.mainRas
      = (cur.mainRas.operate (opsOfGroup kept) ([], st.predictors.mainRas)).2 := by
  induction words generalizing i st with
  | nil =>
      cases h
      exact ⟨[], rfl⟩
  | cons word words ih =>
      obtain ⟨res, hone, h⟩ := Option.bind_eq_some_iff.mp h
      have hword : ∃ kept : List (Word × Word), res.1.predictors.mainRas
          = (cur.mainRas.operate (opsOfGroup kept) ([], st.predictors.mainRas)).2 := by
        unfold fetchOne at hone
        dsimp only at hone
        split at hone
        · cases hone
          exact ⟨[], rfl⟩
        · obtain ⟨p, hp, rfl⟩ := Option.map_eq_some_iff.mp hone
          let curPc := oldPc + BitVec.ofNat 32 (i * 4)
          refine ⟨[(curPc, fetchOpcode curPc word)], ?_⟩
          have hswitch := (predictSwitch_returns hp).1
          change p.predictors.mainRas = _
          rw [← hswitch, opsOfGroup, List.flatMap_singleton]
          rfl
      obtain ⟨kept, hkept⟩ := hword
      split at h
      · obtain ⟨kept', hkept'⟩ := ih h
        refine ⟨kept ++ kept', ?_⟩
        rw [hkept', hkept, opsOfGroup_append, operate_append]
      · cases h
        exact ⟨kept, hkept⟩

/-- **A cycle of `fetch1::run`** is a cycle of the component, with the operations of the words it
keeps. -/
theorem Fetch1.run_returns {f : Fetch1} {predictors : BranchPredictorSet} {inp : Fetch1Input}
    {res : Fetch1Result} (h : f.run predictors inp = some res) :
    ∃ kept : List (Word × Word),
      res.predictors.mainRas = (predictors.mainRas.cycle (opsOfGroup kept)).2 := by
  have hredirect : ∀ pc, ∃ kept : List (Word × Word),
      (f.redirect predictors pc).predictors.mainRas
        = (predictors.mainRas.cycle (opsOfGroup kept)).2 := fun pc => ⟨[], rfl⟩
  unfold Fetch1.run at h
  split at h
  · split at h
    · cases h
      exact hredirect _
    · split at h
      · split at h
        · cases h
          exact hredirect _
        · cases h
      · cases h
        exact hredirect _
  · split at h
    · cases h
      exact hredirect _
    · split at h
      · cases h
        exact hredirect _
      · split at h
        · cases h
          exact hredirect _
        · obtain ⟨st, hst, rfl⟩ := Option.map_eq_some_iff.mp h
          unfold Fetch1.advance at hst
          split at hst
          · split at hst
            · cases hst
              exact ⟨[], rfl⟩
            · cases hst
              exact ⟨[], rfl⟩
          · split at hst
            · exact fetchLoop_returns hst
            · cases hst
              exact ⟨[], rfl⟩

/-! ## Runs -/

/-- Cycle after cycle the component answers as the stack does and represents it. -/
def FollowsStack : Ras → ReturnStack → List (List RasOp) → Prop
  | _, _, [] => True
  | r, s, ops :: cycles =>
      LikeStack (r.cycle ops) (stackCycle s ops)
        ∧ FollowsStack (r.cycle ops).2 (stackCycle s ops).2 cycles

/-- Every cycle of the run fits the stack it finds. -/
def FittingRun : ReturnStack → List (List RasOp) → Prop
  | _, [] => True
  | s, ops :: cycles => Fits s ops ∧ FittingRun (stackCycle s ops).2 cycles

instance decidableFitting : (s : ReturnStack) → (cycles : List (List RasOp)) →
    Decidable (FittingRun s cycles)
  | _, [] => inferInstanceAs (Decidable True)
  | s, ops :: cycles =>
      have := decidableFitting (stackCycle s ops).2 cycles
      inferInstanceAs (Decidable (Fits s ops ∧ FittingRun (stackCycle s ops).2 cycles))

/-- The empty stack; `last_addr` is reset to zero. -/
def noReturns : ReturnStack := .empty 0

theorem holdsStack_init : HoldsStack {} noReturns := ⟨rfl, fun _ => rfl⟩

theorem HoldsStack.follows (h : HoldsStack r s) {cycles : List (List RasOp)}
    (hfit : FittingRun s cycles) : FollowsStack r s cycles := by
  induction cycles generalizing r s with
  | nil => trivial
  | cons ops cycles ih =>
      have hagree := h.operate_fits ops [] hfit.1
      exact ⟨hagree, ih hagree.state hfit.2⟩

theorem HoldsStack.fitting (h : HoldsStack r s) {cycles : List (List RasOp)}
    (hone : ∀ ops ∈ cycles, OneInstruction ops) (hfollows : FollowsStack r s cycles) :
    FittingRun s cycles := by
  induction cycles generalizing r s with
  | nil => trivial
  | cons ops cycles ih =>
      obtain ⟨hagree, hrest⟩ := hfollows
      exact ⟨h.fits_of_agrees (hone ops List.mem_cons_self) hagree,
        ih hagree.state (fun ops hops => hone ops (List.mem_cons_of_mem _ hops)) hrest⟩

/-- **When the return address stack is a stack.** In every run from reset whose cycles fit, each
cycle pops the addresses the stack pops and leaves the registers representing it; and where a
cycle holds the operations of one instruction, it does so in no other run. -/
theorem ras_follows (cycles : List (List RasOp)) :
    (FittingRun noReturns cycles → FollowsStack {} noReturns cycles) ∧
    ((∀ ops ∈ cycles, OneInstruction ops) →
      (FollowsStack {} noReturns cycles ↔ FittingRun noReturns cycles)) := by
  refine ⟨fun hfit => holdsStack_init.follows hfit, fun hone => ?_⟩
  exact ⟨holdsStack_init.fitting hone, holdsStack_init.follows⟩

/-- A function called twice from one place, a call from another, and the three returns. -/
theorem ras_follows_threeCalls :
    FollowsStack {} noReturns [[.push 4], [.push 4], [.push 8], [.pop], [.pop], [.pop], [.pop]] :=
  (ras_follows _).1 (by decide)

/-- Calls from as many places, the first at address 0. -/
def calls (n : Nat) : List (List RasOp) :=
  (List.range n).map fun i => [.push (BitVec.ofNat 32 (4 * i))]

theorem calls_oneInstruction (n : Nat) : ∀ ops ∈ calls n, OneInstruction ops := by
  intro ops hops
  obtain ⟨i, -, rfl⟩ := List.mem_map.mp hops
  exact .inr (.inr (.inl ⟨_, rfl⟩))

/-- A call through the return register, and two returns: the address popped for the call is popped
once more. And the first call the stack has no room for: what is lost is not the oldest address
but the most recent. -/
theorem ras_coroutine_popsTwice :
    ¬ FollowsStack {} noReturns [[.push 4], [.pop, .push 8], [.pop], [.pop]] ∧
      ¬ FollowsStack {} noReturns (calls 257) := by
  refine ⟨fun hfollows => ?_, fun hfollows => ?_⟩
  · have hanswers := hfollows.2.2.2.1.answers
    revert hanswers
    decide
  · have hfits := holdsStack_init.fitting (calls_oneInstruction 257) hfollows
    revert hfits
    decide +kernel

end DreamCore
