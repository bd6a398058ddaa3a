import DreamCore.Frontend.Stream
import DreamCore.Lib.Trail

/-!
# The wait for a jump

A jump fetch cannot predict is the last word of its group, and nothing is fetched
behind it: the first level waits until commit says where it goes. What is said here
of a group and of a cycle is what has to be known of the wait when fetch is joined
with the rest of the core.
-/

namespace DreamCore

/-- Fetch does not know where to go on behind the instruction: it decodes to a jump, and has not
been predicted. -/
def FetchOpInfo.stops (q : FetchOpInfo) : Bool :=
  q.legalBranch && !q.branchPredictorInfoPack.predicted

/-- A stretch of the stream without a redirect is a trail. -/
theorem Follows.trail {pc pc' : Word} {l : List FetchOpInfo}
    (h : Follows (fun _ => none) pc l pc') :
    Trail (fun q pc => q.pc = pc) FetchOpInfo.followPc pc l pc' := by
  induction l generalizing pc with
  | nil => exact h
  | cons q l ih => exact ⟨h.1, ih h.2⟩

/-! ## One group -/

/-- What the loop ends with agrees with decode, if the words so far do. -/
theorem fetchLoop_agrees {cur : BranchPredictorSet} {idle : Bool} {oldPc : Word}
    (words : List Word) (i : Nat) {st st' : FetchState} (hg : st.Going)
    (h : fetchLoop cur idle oldPc i words st = some st') : st'.Agrees := by
  induction words generalizing i st with
  | nil =>
    cases h
    exact hg.agrees
  | cons word words ih =>
    obtain ⟨⟨st₁, go⟩, hone, h⟩ := Option.bind_eq_some_iff.mp h
    have hres : reservedAt oldPc i word = false := by
      have hsome := fetchOne_isSome cur idle oldPc i word st
      rw [hone] at hsome
      simpa using hsome.symm
    obtain ⟨st₂, go₂, hone₂, hagrees, hgoing⟩ := fetchOne_step hg hres
    rw [hone, Option.some.injEq, Prod.mk.injEq] at hone₂
    obtain ⟨rfl, rfl⟩ := hone₂
    cases go with
    | false =>
      cases h
      exact hagrees
    | true => exact ih (i + 1) (hgoing rfl) h

/-- **The jump a group ends with**: what stops fetch is the last word, and fetch waits. -/
theorem FetchState.Agrees.halts {st : FetchState} (h : st.Agrees)
    (hids : (st.sendPack.map FetchOpInfo.instId).Nodup) :
    Halts FetchOpInfo.stops st.sendPack st.fetch1.jumpWait := by
  intro l₁ q l₂ hl hq
  rw [FetchOpInfo.stops, Bool.and_eq_true, Bool.not_eq_true'] at hq
  rcases (h q (by rw [hl]; simp)).mpr hq.1 with hp | ⟨hw, hlast⟩
  · rw [hq.2] at hp
    cases hp
  · refine ⟨?_, hw⟩
    rw [hl] at hids hlast
    rcases List.eq_nil_or_concat l₂ with rfl | ⟨l₃, q', rfl⟩
    · rfl
    · -- the last word has another id
      rw [List.concat_eq_append, ← List.cons_append, ← List.append_assoc,
        List.getLast?_concat, Option.some_inj] at hlast
      subst hlast
      simp [List.nodup_append] at hids

/-! ## One cycle -/

variable {s : Front} {inp : FrontInput} {r : FrontResult}

/-- While fetch waits nothing else happens in the first level. -/
theorem advance_waiting {f : Fetch1} {predictors : BranchPredictorSet} {inp : Fetch1Input}
    {st : FetchState} (hj : f.jumpWait = true) (h : f.advance predictors inp = some st) :
    st.fetch1 = f.resolve inp.commit := by
  unfold Fetch1.advance at h
  unfold Fetch1.resolve
  rw [hj, if_pos rfl] at h
  rw [hj, Bool.true_and]
  split at h
  · rename_i he
    cases h
    rw [if_pos he]
  · rename_i he
    cases h
    rw [if_neg he]

/-- **The wait after a cycle** without flush or redirect: it ends when commit says so, and it
begins at the end of a group. -/
theorem cycle_waits (h : s.cycle inp = some r) (hf : inp.flush = false)
    (hredirect : r.fetch2.feedback.pcRedirect = false) :
    (s.fetch1.jumpWait = true → r.next.fetch1 = s.fetch1.resolve inp.commit)
      ∧ (s.fetch1.jumpWait = false →
        Halts FetchOpInfo.stops (r.fetch1.port.getD []) r.next.fetch1.jumpWait) := by
  obtain ⟨hcommit, hbru, hsau⟩ := FrontInput.flush_eq_false.mp hf
  unfold Front.cycle at h
  obtain ⟨r₁, hr₁, h⟩ := Option.map_eq_some_iff.mp h
  cases h
  dsimp only at hredirect
  obtain ⟨st, hst, hfetch1, -, hport⟩ := run_plain hr₁ hcommit hbru hsau hredirect
  have hfetched := advance_fetched hst
  show (_ → r₁.fetch1 = _) ∧ (_ → Halts _ (r₁.port.getD []) r₁.fetch1.jumpWait)
  rw [hfetch1, hport]
  constructor
  · intro hj
    exact advance_waiting hj hst
  · intro hj
    unfold Fetch1.advance at hst
    rw [hj, if_neg Bool.false_ne_true] at hst
    split at hst
    · rename_i words hstall _
      rw [hstall]
      have hagrees := fetchLoop_agrees _ _ ⟨hj, by simp⟩ hst
      obtain ⟨new, hnew, -, -⟩ := hfetched
      have hsend : st.sendPack = new := by rw [hnew.sendPack]; rfl
      refine hagrees.halts ?_
      rw [hsend, hnew.ids]
      exact List.nodup_range'
    · rename_i hno
      cases hst
      split
      · exact Halts.nil
      · exact Halts.nil

/-- **A flush of commit sends fetch** to the handler, or where the jump goes. -/
theorem cycle_commitFlush (h : s.cycle inp = some r) (hf : inp.commit.flush = true)
    (ht : inp.commit.Targeted) :
    r.next.fetch1.pc = inp.commit.target ∧ r.next.fetch1.jumpWait = false := by
  have hflush : inp.flush = true := by rw [FrontInput.flush, hf, Bool.true_or, Bool.true_or]
  have htarget := cycle_target h hflush ht
  rwa [FrontInput.target, if_pos hf] at htarget

/-- **A flush of the branch unit sends fetch** where the branch goes. -/
theorem cycle_bruFlush (h : s.cycle inp = some r) (hf : inp.commit.flush = false)
    (hb : inp.bru.flush = true) :
    r.next.fetch1.pc = inp.bru.nextPc ∧ r.next.fetch1.jumpWait = false := by
  have hflush : inp.flush = true := by rw [FrontInput.flush, hb, Bool.or_true, Bool.true_or]
  have htarget := cycle_target h hflush fun hc => by rw [hf] at hc; cases hc
  rwa [FrontInput.target, hf, if_neg Bool.false_ne_true, if_pos hb] at htarget

end DreamCore
