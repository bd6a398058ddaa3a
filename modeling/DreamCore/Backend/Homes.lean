import DreamCore.Backend.RegfileData
import DreamCore.Backend.ValidBits
import DreamCore.Lib.Renaming

/-!
# Homes that stay

The window is a list of renamings: each instruction that writes a register moves it
from its home to a register from the free list. What an instruction in flight reads
is a home of its own place in the window, which is neither that of what retires nor
that of rename, and no stage looks up whether it is still in use.

It stays, all the same: commit releases a home when the instruction that has moved it
retires, and whoever reads that home is older and has retired before. So it is not
released and not given out, and the instruction that is to write it is not squashed,
as long as the reader is not.
-/

namespace DreamCore

open Ring

variable {w : World} {g₀ g : Ghost} {inp : CycleInput} {r : CycleResult}

/-- The renamings of a window, oldest first. -/
def renamings (fl : List Flight) : List (Nat × Nat) :=
  (fl.filter fun f => f.info.allocates).map fun f => (f.info.rd, f.info.rdPhy)

theorem renamings_append (l₁ l₂ : List Flight) :
    renamings (l₁ ++ l₂) = renamings l₁ ++ renamings l₂ := by
  rw [renamings, List.filter_append, List.map_append]
  rfl

theorem renamings_cons (f : Flight) (l : List Flight) : renamings (f :: l)
    = (if f.info.allocates then [(f.info.rd, f.info.rdPhy)] else []) ++ renamings l := by
  rw [renamings, List.filter_cons]
  split <;> rfl

theorem mem_renamings {fl : List Flight} {e : Nat × Nat} : e ∈ renamings fl ↔
    ∃ f ∈ fl, f.info.allocates = true ∧ (f.info.rd, f.info.rdPhy) = e := by
  simp only [renamings, List.mem_map, List.mem_filter, and_assoc]

theorem renamings_snd (fl : List Flight) : (renamings fl).map Prod.snd = dests fl := by
  rw [renamings, List.map_map]
  rfl

/-- **The map of a window** is that of its renamings. -/
theorem tip_map (σ : Shadow) (fl : List Flight) :
    (tip σ fl).map = Renaming.after σ.map (renamings fl) := by
  induction fl generalizing σ with
  | nil => rfl
  | cons f fl ih =>
    rw [tip, Window.tip_cons, ← tip, ih, renamings_cons]
    unfold advance
    dsimp only
    split <;> rfl

/-- **Rename maps to fresh registers.** -/
theorem World.Holds.fresh (hw : w.Holds g) :
    Renaming.Fresh {a | IsReg a} g.base.map (renamings w.flight) where
  injOn _ ha _ hb he := hw.inv.retire.inj ha hb he
  nodup := by
    rw [renamings_snd]
    exact (List.nodup_append.mp hw.apart).2.1
  mem := by
    intro e he
    obtain ⟨f, hf, hal, rfl⟩ := mem_renamings.mp he
    obtain ⟨l₁, l₂, hl⟩ := List.append_of_mem hf
    exact ((hw.inv.entry (hw.flight.trans hl)).dest hal).1
  new := by
    intro e he a ha heq
    obtain ⟨f, hf, hal, rfl⟩ := mem_renamings.mp he
    have hdest := mem_dests.mpr ⟨f, hf, hal, rfl⟩
    exact hw.dest_not_home hdest ((hw.inv.retire.valid _ (hw.dest_lt hdest)).mpr ⟨a, ha, heq⟩)

/-- **Whose destination is a home** of a place in the window is in front of it. -/
theorem World.Holds.owner_mem (hw : w.Holds g) {m l : List Flight} (hsplit : w.flight = m ++ l)
    {a : Nat} (ha : IsReg a) {f : Flight} (hf : f ∈ w.flight) (hal : f.info.allocates = true)
    (hrd : f.info.rdPhy = (tip g.base m).map a) : f ∈ m := by
  have hfresh := hw.fresh
  rw [hsplit, renamings_append] at hfresh
  have he : (f.info.rd, f.info.rdPhy) ∈ renamings m ++ renamings l := by
    rw [← renamings_append, ← hsplit]
    exact mem_renamings.mpr ⟨f, hf, hal, rfl⟩
  have hmem := hfresh.owner_mem ha he (by rw [← tip_map]; exact hrd.symm)
  obtain ⟨f', hf', hal', heq⟩ := mem_renamings.mp hmem
  have hflight : f' ∈ w.flight := hsplit ▸ List.mem_append_left _ hf'
  rwa [hw.dest_inj hf hflight hal hal' (congrArg Prod.snd heq).symm]

/-! ## What is released -/

/-- The entries of a window release what its renamings free. -/
theorem released_entries {s : Core} {freed : Nat} {released : List Nat} {σ : Shadow}
    {fl : List Flight} (h : Window.EachAt advance (EntryOk s freed released) σ fl) :
    releasedIds (fl.map fun f => (f.info.robId.id, s.rob.buffer f.info.robId.id))
      = Renaming.freed σ.map (renamings fl) := by
  induction fl generalizing σ with
  | nil => rfl
  | cons f fl ih =>
    have hitem := h.1.item
    rw [← Ptr.fold_id, ← h.1.robId] at hitem
    rw [List.map_cons, ← List.singleton_append, releasedIds_append, ih h.2, renamings_cons]
    unfold advance releasedIds
    dsimp only
    cases ha : f.info.allocates with
    | false => simp [hitem.allocates, ha]
    | true => simp [hitem.allocates, ha, (hitem.oldPhyRegId ha).1]

/-- **A cycle releases** what the renamings of the retired instructions free. -/
theorem released_eq (hw : w.Holds g₀) (h : w.core.cycle inp = some r) :
    releasedIds r.commit.retired
      = Renaming.freed g₀.base.map (renamings (w.flight.take r.commit.retired.length)) := by
  have hretired : r.commit.retired = (w.flight.take r.commit.retired.length).map fun f =>
      (f.info.robId.id, w.core.rob.buffer f.info.robId.id) := by
    have hitems : r.commit.retired
        = (r.commit.retired.map Prod.fst).map fun id => (id, w.core.rob.buffer id) := by
      rw [List.map_map]
      refine (List.map_id _).symm.trans (List.map_congr_left fun e he => ?_)
      exact Prod.ext rfl (commitRun_plain (Core.cycle_eq_some h).commit e he).1
    rw [retired_slots hw h, List.map_map] at hitems
    exact hitems
  have hcut : g₀.flight = w.flight.take r.commit.retired.length
      ++ w.flight.drop r.commit.retired.length := by
    rw [hw.flight, List.take_append_drop]
  rw [← released_entries (hw.inv.prefixEntries hcut), ← hretired]

/-- **A home of a place behind what retires is not released.** -/
theorem not_released (hw : w.Holds g₀) (h : w.core.cycle inp = some r) {m l : List Flight}
    (hl : w.flight = m ++ l) (hle : r.commit.retired.length ≤ m.length) {a : Nat} (ha : IsReg a) :
    (tip g₀.base m).map a ∉ releasedIds r.commit.retired := by
  have hfresh := hw.fresh
  rw [hl, renamings_append] at hfresh
  have hm := hfresh.left
  rw [released_eq hw h, tip_map, hl, List.take_append_of_le_length hle]
  rw [← List.take_append_drop r.commit.retired.length m, renamings_append] at hm ⊢
  rw [List.take_append_drop]
  exact hm.not_mem_freed ha

theorem retired_length_le (hw : w.Holds g₀) (h : w.core.cycle inp = some r) :
    r.commit.retired.length ≤ (w.flight.take r.commit.retired.length).length := by
  have hlen := congrArg List.length (retired_slots hw h)
  rw [List.length_map, List.length_map] at hlen
  exact hlen.le

/-- **A home of what has retired** is neither released in the cycle nor written. -/
theorem retired_home_kept (hw : w.Holds g₀) (hwr : w.Writes inp r) (h : w.core.cycle inp = some r)
    {a : Nat} (ha : IsReg a) :
    (tip g₀.base (w.flight.take r.commit.retired.length)).map a ∉ releasedIds r.commit.retired
      ∧ ∀ rev ∈ inp.written w.core r,
        rev.rdPhy ≠ (tip g₀.base (w.flight.take r.commit.retired.length)).map a := by
  have hsplit := (List.take_append_drop r.commit.retired.length w.flight).symm
  refine ⟨not_released hw h hsplit (retired_length_le hw h) ha, fun rev hrev hrd => ?_⟩
  -- only an instruction that has not finished is written back
  obtain ⟨f, hf, hal, hphy, -, hno⟩ := hwr.belongs rev hrev
  exact hno (retired_plain hw h (hw.owner_mem hsplit ha hf hal (hphy.trans hrd))).1

/-! ## What stays -/

/-- **Whom a flush of the branch unit squashes**: the instructions behind the branch. -/
theorem bru_squashes (hw : w.Holds g₀) (hl : inp.Legal w) (h : w.core.cycle inp = some r)
    (hb : r.bru.flush = true) : ∃ m₁ b m₂, w.flight = m₁ ++ b :: m₂
      ∧ (∃ rev, inp.bru = some rev ∧ OperandsOf b.info rev)
      ∧ ∀ n₁ f n₂, w.flight = n₁ ++ f :: n₂ →
        (r.bru.squashes f.info.robId = true ↔ m₁.length < n₁.length) := by
  obtain ⟨-, hbru⟩ := (Core.cycle_eq_some h).feedbacks hw
  have hfb : (inp.bruFb w.core).flush = true ∧ r.bru = inp.bruFb w.core := by
    rw [hbru] at hb
    split at hb
    · cases hb
    · rename_i hfl
      rw [hbru, if_neg hfl]
      exact ⟨hb, rfl⟩
  obtain ⟨b, hbmem, rev, hrev, hop, -, hid⟩ := hl.flushing hfb.1
  obtain ⟨m₁, m₂, hbranch⟩ := List.append_of_mem hbmem
  refine ⟨m₁, b, m₂, hbranch, ⟨rev, hrev, hop⟩, fun n₁ f n₂ hf => ?_⟩
  rw [FlushFeedback.squashes, hb, Bool.true_and, hfb.2, hid]
  exact hw.inv.younger_iff (hw.flight.trans hbranch) (hw.flight.trans hf)

/-- **A flush of the branch unit spares what is older** than what it spares. -/
theorem older_spared (hw : w.Holds g₀) (hl : inp.Legal w) (h : w.core.cycle inp = some r)
    {l₁ l₂ : List Flight} {f f' : Flight} (hsplit : w.flight = l₁ ++ f :: l₂) (hf' : f' ∈ l₁)
    (hsq : r.bru.squashes f.info.robId = false) : r.bru.squashes f'.info.robId = false := by
  cases hb : r.bru.flush with
  | false => simp [FlushFeedback.squashes, hb]
  | true =>
    -- the order is that of the places in the window, seen from the branch
    obtain ⟨m₁, b, m₂, -, -, hyounger⟩ := bru_squashes hw hl h hb
    obtain ⟨k₁, k₂, rfl⟩ := List.append_of_mem hf'
    rw [Bool.eq_false_iff] at hsq ⊢
    rw [ne_eq, hyounger _ _ _ hsplit] at hsq
    have hold : w.flight = k₁ ++ f' :: (k₂ ++ f :: l₂) := by
      rw [hsplit]
      simp
    rw [ne_eq, hyounger _ _ _ hold]
    rw [List.length_append, List.length_cons] at hsq
    omega

/-- **A register that nothing in the cycle takes away.** -/
structure World.Stays (w : World) (r : CycleResult) (x : Nat) : Prop where
  released : x ∉ releasedIds r.commit.retired
  given : (r.rename.turns.any fun t => t.1.allocates && t.1.rdPhy == x) = false
  owner : ∀ f ∈ w.flight, f.info.allocates = true → f.info.rdPhy = x →
    r.bru.squashes f.info.robId = false

/-- **The homes of a place in the window stay**, unless commit flushes or the branch unit squashes
what is in front of it. -/
theorem stays (hw : w.Holds g₀) (hl : inp.Legal w) (h : w.core.cycle inp = some r)
    (hw' : (w.act r).Holds g) (hfl : r.commit.feedback.flush = false) {m l : List Flight}
    (hsplit : w.flight = m ++ l) (hle : r.commit.retired.length ≤ m.length)
    (hspared : ∀ f ∈ m, r.bru.squashes f.info.robId = false) {a : Nat} (ha : IsReg a) :
    w.Stays r ((tip g₀.base m).map a) := by
  have hno := not_released hw h hsplit hle ha
  have htake : w.flight.take r.commit.retired.length = m.take r.commit.retired.length := by
    rw [hsplit, List.take_append_of_le_length hle]
  -- a home of the retired part is one after the cycle
  have hhome : ∀ (l₁ l₂ : List Flight) (b : Nat), IsReg b →
      w.flight.take r.commit.retired.length = l₁ ++ l₂ →
        (tip g₀.base l₁).map b = (tip g₀.base m).map a →
          r.next.retireRat.phyMapTableValid ((tip g₀.base m).map a) = true := by
    intro l₁ l₂ b hb hcut heq
    have hlt := (hw.inv.rewind m l (hw.flight.trans hsplit) a ha).2
    rcases home_or_released hw h hcut b with hstay | hrel
    · exact ((cycle_homes hw hl h hfl).valid _ hlt).mpr ⟨b, hb, hstay.trans heq⟩
    · exact absurd (heq ▸ hrel) hno
  refine ⟨hno, not_given hw hl h hw' ?_, fun f hf hal hrd => ?_⟩
  · rcases Renaming.after_cases g₀.base.map (renamings m) a with hold | ⟨e, he, hea, hmap⟩
    · rw [← tip_map] at hold
      exact .inl (hhome [] _ a ha rfl hold.symm)
    · obtain ⟨f, hf, hal, rfl⟩ := mem_renamings.mp he
      rw [← tip_map] at hmap
      rw [← List.take_append_drop r.commit.retired.length m] at hf
      rcases List.mem_append.mp hf with hret | hstay
      · obtain ⟨l₁, l₂, hcut⟩ := List.append_of_mem hret
        refine .inl (hhome (l₁ ++ [f]) l₂ a ha (by rw [htake, hcut]; simp) ?_)
        rw [← hmap, tip_map, renamings_append, renamings_cons, hal, if_pos rfl]
        rw [show renamings [] = [] from rfl, List.append_nil, Renaming.after_concat]
        exact (congrArg _ hea.symm).trans (Function.update_self ..)
      · refine .inr ⟨f, ?_, hal, hmap⟩
        rw [World.survivors, hfl, if_neg Bool.false_ne_true, hsplit,
          List.drop_append_of_le_length hle]
        refine List.mem_filter.mpr ⟨List.mem_append_left _ hstay, ?_⟩
        rw [hspared f (List.mem_of_mem_drop hstay)]
        rfl
  · exact hspared f (hw.owner_mem hsplit ha hf hal hrd)

/-! ## The homes after a cycle -/

theorem retireN_released (k : Nat) (g : Ghost) : (g.retireN k).released
    = g.released ++ Renaming.freed g.base.map (renamings (g.flight.take k)) := by
  induction k generalizing g with
  | zero => simp [Ghost.retireN, renamings, Renaming.freed]
  | succ k ih =>
    cases hf : g.flight with
    | nil => simp [Ghost.retireN, hf, renamings, Renaming.freed]
    | cons f rest =>
      simp only [Ghost.retireN, hf]
      rw [ih, List.take_succ_cons, renamings_cons]
      unfold Ghost.retire advance
      dsimp only
      split <;> simp

/-- **The homes after a cycle**, also one that commit flushes: those of what has retired. -/
theorem cycle_homes_retired (hw : w.Holds g₀) (hl : inp.Legal w) (h : w.core.cycle inp = some r) :
    Represents r.next.retireRat
      (tip g₀.base (w.flight.take r.commit.retired.length)).map := by
  cases hfl : r.commit.feedback.flush with
  | false => exact cycle_homes hw hl h hfl
  | true =>
    have hstages := Core.cycle_eq_some h
    obtain ⟨hack, hrsb⟩ := early_waits w.core inp
    have hports : ∀ rev ∈ inp.commit.executeCommitPort, rev.enable = true →
        ∃ f ∈ g₀.flight, ResultOf f.info rev := by
      rw [hw.flight]
      exact hl.results
    rw [cycle_retireRat hw h]
    cases commitRun_effect hw.inv (early_sameWindow w.core inp) hack hrsb hports hstages.commit with
    | retired k hk _ =>
      rw [hk.flush] at hfl
      cases hfl
    | dropped k j hk =>
      -- what the loop has retired has as many renamings as what is logged
      have hret := hk.inv.retire
      have hfreed := hk.released
      rw [retireN_released, List.append_cancel_left_eq, released_eq hw h, hw.flight] at hfreed
      have hlen := congrArg List.length hfreed
      rw [Renaming.length_freed, Renaming.length_freed] at hlen
      have hsame : renamings (w.flight.take k)
          = renamings (w.flight.take r.commit.retired.length) := by
        have hbegins : ∀ n, renamings (w.flight.take n) <+: renamings w.flight := fun n =>
          ⟨renamings (w.flight.drop n), by rw [← renamings_append, List.take_append_drop]⟩
        exact (List.prefix_of_prefix_length_le (hbegins k) (hbegins _) hlen.le).eq_of_length hlen
      have hbase : ((g₀.retireN k).flush j).base.map
          = (tip g₀.base (w.flight.take r.commit.retired.length)).map := by
        rw [tip_map, ← hsame, ← tip_map, ← hw.flight, ← g₀.retireN_base k]
        rfl
      rwa [hbase] at hret
    | interrupted hnil hinv _ hret =>
      rw [hret, ← hw.flight, hnil]
      exact hinv.retire

end DreamCore
