import DreamCore.Backend.Dataflow
import DreamCore.Frontend.Faults
import DreamCore.Machine.Path

/-!
# The program in the pipeline

What fetch makes an instruction of is what the bus has delivered for its `pc`, or
nothing if that is misaligned. The second level and decode leave it at that, so that
whatever can be said of the words the bus delivers can be said of every instruction
between fetch and the log.
-/

namespace DreamCore

/-- **An instruction of the code**: the word at its `pc`, or a misaligned one that is marked. -/
structure FetchOpInfo.Of (code : Word → Word → Prop) (q : FetchOpInfo) : Prop where
  hasException : q.hasException = !checkAlign q.pc 4
  value : ∃ word, code q.pc word ∧ q.value = fetchOpcode q.pc word

variable {code : Word → Word → Prop}

/-! ## Fetch -/

theorem fetchInfo_of {curPc word : Word} (h : code curPc word) (instId : Nat)
    (pack : BranchPredictorInfoPack) :
    (fetchInfo instId curPc (fetchOpcode curPc word) pack).Of code :=
  ⟨rfl, word, h, rfl⟩

/-- The second level changes neither the word nor its place. -/
theorem level2Change_of {biMode : BiMode} {i : Nat} {q : FetchOpInfo} (h : q.Of code) :
    (level2Change biMode i q).Of code :=
  ⟨h.hasException, h.value⟩

/-- **The group** is code if its words are. -/
theorem fetchLoop_of {cur : BranchPredictorSet} {idle : Bool} {oldPc : Word} (words : List Word)
    (i : Nat) {st st' : FetchState}
    (hcode : ∀ k word, words[k]? = some word → code (oldPc + BitVec.ofNat 32 ((i + k) * 4)) word)
    (hst : ∀ q ∈ st.sendPack, q.Of code) (h : fetchLoop cur idle oldPc i words st = some st') :
    ∀ q ∈ st'.sendPack, q.Of code := by
  induction words generalizing i st with
  | nil =>
    cases h
    exact hst
  | cons word words ih =>
    rw [fetchLoop] at h
    obtain ⟨⟨st₁, go⟩, hone, h⟩ := Option.bind_eq_some_iff.mp h
    have hst₁ : ∀ q ∈ st₁.sendPack, q.Of code := by
      have hsend := fetchOne_sendPack hone
      split at hsend
      · rw [hsend.1]
        exact hst
      · obtain ⟨pack, hsend⟩ := hsend
        intro q hq
        rw [hsend] at hq
        rcases List.mem_append.mp hq with hq | hq
        · exact hst q hq
        · rw [List.mem_singleton.mp hq]
          exact fetchInfo_of (hcode 0 word rfl) _ _
    cases go with
    | false =>
      cases h
      exact hst₁
    | true =>
      refine ih (i + 1) (fun k word' hk => ?_) hst₁ h
      have hnext := hcode (k + 1) word' hk
      rwa [show i + (k + 1) = i + 1 + k by omega] at hnext

/-- The bus delivers code for the group at `pc`. -/
def Delivers (code : Word → Word → Prop) (pc : Word)
    (instructionValue : Option (Fin fetchWidth → Word)) : Prop :=
  ∀ words, instructionValue = some words →
    ∀ i : Fin fetchWidth, code (pc + BitVec.ofNat 32 (i.val * 4)) (words i)

instance [∀ pc word, Decidable (code pc word)] (pc : Word)
    (instructionValue : Option (Fin fetchWidth → Word)) :
    Decidable (Delivers code pc instructionValue) :=
  -- the group at hand is looked at, and not all there could be
  @Option.decidableForallMem _ _ (fun _ => Nat.decidableForallFin _) instructionValue

theorem advance_of {f : Fetch1} {predictors : BranchPredictorSet} {inp : Fetch1Input}
    {st : FetchState} (hcode : Delivers code f.pc inp.instructionValue)
    (h : f.advance predictors inp = some st) : ∀ q ∈ st.sendPack, q.Of code := by
  have hnil : ∀ q ∈ ([] : List FetchOpInfo), q.Of code := fun q hq => by cases hq
  unfold Fetch1.advance at h
  split at h
  · split at h <;> cases h <;> exact hnil
  · split at h
    · rename_i words _ hwords
      refine fetchLoop_of _ 0 (fun k word hk => ?_) hnil h
      rw [List.getElem?_eq_some_iff] at hk
      obtain ⟨hlt, rfl⟩ := hk
      rw [List.getElem_ofFn, Nat.zero_add]
      exact hcode words hwords ⟨k, by simpa using hlt⟩
    · cases h
      exact hnil

variable {s : Front} {inp : FrontInput} {r : FrontResult}

/-- **The group of a cycle** is what the first level has come to, if there is one. -/
theorem cycle_group (h : s.cycle inp = some r) (hf : inp.flush = false)
    (hredirect : r.fetch2.feedback.pcRedirect = false) : ∃ st,
    s.fetch1.advance s.predictors (Front.fetch1Input inp r.fetch2.feedback) = some st
      ∧ r.fetch1.port = if r.fetch2.feedback.stall then none else some st.sendPack := by
  obtain ⟨hcommit, hbru, hsau⟩ := FrontInput.flush_eq_false.mp hf
  unfold Front.cycle at h
  obtain ⟨r₁, hr₁, h⟩ := Option.map_eq_some_iff.mp h
  cases h
  obtain ⟨st, hst, -, -, hport⟩ := run_plain hr₁ hcommit hbru hsau hredirect
  exact ⟨st, hst, hport⟩

/-- **A cycle of fetch** adds nothing but code to what is pending. -/
theorem cycle_of (hcode : Delivers code s.fetch1.pc inp.instructionValue)
    (hpending : ∀ q ∈ s.pending, q.Of code) (h : s.cycle inp = some r) :
    ∀ q ∈ r.fetch2.pushed ++ r.next.pending, q.Of code := by
  cases hf : inp.flush with
  | true =>
    obtain ⟨hnil, -, hpushed, -⟩ := cycle_flush h hf
    rw [hnil, hpushed]
    exact fun q hq => by cases hq
  | false =>
    cases hredirect : r.fetch2.feedback.pcRedirect with
    | true =>
      obtain ⟨hb, pre, q, post, hport, -, -, hmoved, -⟩ := cycle_redirect h hf hredirect
      have hcons : s.pending = pre ++ q :: post := by
        rw [Front.pending, hb, hport]
        rfl
      rw [hcons] at hpending
      rw [hmoved]
      intro q' hq'
      rcases List.mem_append.mp hq' with hq' | hq'
      · exact hpending q' (List.mem_append_left _ hq')
      · rw [List.mem_singleton.mp hq']
        exact level2Change_of (hpending q (by simp))
    | false =>
      obtain ⟨st, new, hc, -⟩ := cycle_plain h hf hredirect
      rw [hc.moved]
      intro q hq
      rcases List.mem_append.mp hq with hq | hq
      · exact hpending q hq
      · -- the new group is what the first level has handed over
        obtain ⟨st', hst, hport⟩ := cycle_group h hf hredirect
        rw [← hc.handed, hport] at hq
        split at hq
        · cases hq
        · exact advance_of hcode hst q hq

/-! ## The processor -/

/-- An instruction renamed from code. -/
def OpInfo.Of (code : Word → Word → Prop) (info : OpInfo) : Prop :=
  ∃ q : FetchOpInfo, q.Of code ∧ info.Sends q.decoded

/-- **Code that was not marked is aligned**, and its word is that of the code. -/
theorem OpInfo.Of.aligned {info : OpInfo} (h : info.Of code) (hx : info.hasException = false) :
    checkAlign info.pc 4 = true ∧ code info.pc info.value := by
  obtain ⟨q, hq, hsends⟩ := h
  have hpc : info.pc = q.pc := (congrArg (·.pc) hsends).trans (decode_pc _)
  have hqx : q.hasException = false := (congrArg (·.hasException) hsends).symm.trans hx
  have hvalue : info.value = q.value := congrArg (·.value) hsends
  have halign : checkAlign q.pc 4 = true := by
    rw [hq.hasException] at hqx
    simpa using hqx
  obtain ⟨word, hcode, hword⟩ := hq.value
  rw [fetchOpcode, halign, if_pos rfl] at hword
  rw [hpc, hvalue, hword]
  exact ⟨halign, hcode⟩

namespace Processor

variable {p : Processor} {inp : Input} {r : CycleResult} {d : Dispatch} {f : FrontResult}

/-- **Everything in the processor is code.** -/
structure Loaded (code : Word → Word → Prop) (p : Processor) : Prop where
  upstream : ∀ q ∈ p.upstream, q.Of code
  flight : ∀ fl ∈ p.world.flight, fl.info.Of code
  log : ∀ info item, .retired info item ∈ p.log → info.Of code

theorem loaded_init : Loaded code init := by
  constructor <;> simp [init, upstream, FrontWorld.init, Front.reset, Front.pending, Fetch2.reset,
    World.init, Execution.init, Pipe.init]

/-- A cycle brings in nothing else. -/
theorem Loaded.step (h : p.Loaded code) (hp : Reachable p) (hc : p.Cycle inp r d f)
    (hcode : Delivers code p.fetch.front.fetch1.pc inp.instructionValue) :
    (p.act inp r d f).Loaded code := by
  obtain ⟨g₀, hw⟩ := hp.execution.held.1.world.holds
  obtain ⟨g, hw'⟩ := (Reachable.cycle inp r d f hp hc).execution.held.1.world.holds
  have hlegal := (hp.execution.held.2.pipe hc.execution).legal.cycle
  have hfront : ∀ q ∈ f.fetch2.pushed ++ f.next.pending, q.Of code :=
    cycle_of hcode (fun q hq => h.upstream q (List.mem_append_right _ hq)) hc.fetch
  refine ⟨fun q hq => ?_, fun fl hfl => ?_, fun info item he => ?_⟩
  · cases hf : (p.machine.frontInput inp.machine r).flush with
    | true =>
      -- a flush leaves fetch only
      have hfifos : (p.act inp r d f).decodeRename ++ (p.act inp r d f).fetch2Decode = [] := by
        show (if _ then _ else _) ++ (if _ then _ else _) = _
        rw [hf, if_pos rfl, if_pos rfl]
        rfl
      rw [Processor.upstream, hfifos] at hq
      exact hfront q (List.mem_append_right _ hq)
    | false =>
      rw [upstream_moved hf] at hq
      rcases List.mem_append.mp hq with hq | hq
      · refine h.upstream q (List.mem_append_left _ ?_)
        rcases List.mem_append.mp hq with hq | hq
        · exact List.mem_append_left _ (List.mem_of_mem_drop hq)
        · exact List.mem_append_right _ hq
      · exact hfront q hq
  · cases cycle_survives hw hlegal hc.execution.core hw' fl hfl with
    | kept hold _ _ => exact h.flight fl hold
    | renamed t ht hinfo _ =>
      obtain ⟨q, hq, hsend⟩ := mem_left_of_forall₂ ((hc.legal hp).renamed hc.execution.core) ht
      have hup : q ∈ p.upstream := List.mem_append_left _
        (List.mem_append_left _ (List.mem_of_mem_take hq))
      exact ⟨q, h.upstream q hup, hinfo ▸ hsend⟩
  · rcases List.mem_append.mp he with he | he
    · exact h.log info item he
    · rcases List.mem_append.mp he with he | he
      · obtain ⟨fl, hfl, heq⟩ := List.mem_map.mp he
        cases heq
        exact h.flight fl (List.mem_of_mem_take hfl)
      · split at he <;> simp at he

/-- **The runs in which operands are read**, and the bus delivers code. -/
inductive Runs (code : Word → Word → Prop) : Processor → Prop where
  | init : Runs code Processor.init
  | cycle {p : Processor} (inp : Input) (r : CycleResult) (d : Dispatch) (f : FrontResult) :
      Runs code p → p.Cycle inp r d f → p.execution.Reads inp.execution r →
      Delivers code p.fetch.front.fetch1.pc inp.instructionValue → Runs code (p.act inp r d f)

theorem Runs.reachable (h : Runs code p) : Reachable p := by
  induction h with
  | init => exact .init
  | cycle inp r d f _ hc _ _ ih => exact .cycle inp r d f ih hc

theorem Runs.loaded (h : Runs code p) : p.Loaded code := by
  induction h with
  | init => exact loaded_init
  | cycle inp r d f hp hc _ hcode ih => exact ih.step hp.reachable hc hcode

theorem Runs.flowing (h : Runs code p) : p.execution.Flowing := by
  induction h with
  | init => exact Execution.flowing_init
  | cycle inp r d f hp hc hread _ ih => exact ih.step hp.reachable.execution hc.execution hread

end Processor

end DreamCore
