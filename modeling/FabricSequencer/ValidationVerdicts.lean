import FabricSequencer.ValidationWorkers

/-!
# Verdicts on the transactions of a block

The result that a worker is to record for a namespace: the `verdict` on the
transaction, which is computed from the verdicts on the transactions before it
in the block.  `OnTrack` and `Covers` say that a worker on its way to a result
will come to the verdict.
-/

namespace FabricSequencer.TxValidator

open Protoutil Framing Statebased List

variable (v : Validator) (block b : List Bytes)

def depKeys (j : ℕ) : List LedgerKeyID :=
  match extractDependenciesForTx v (txBytes block j) with
  | .error _ => []
  | .ok keys => keys

def NsResult.succeeded : NsResult → Bool
  | .error _ => false
  | .ok () => true

def nsEvaluation (ns : GoString) (ccEP : Bytes) (i : ℕ) (updated : LedgerKeyID → Bool) : NsResult :=
  match extractValidationArtifacts v (txBytes block i) with
  | .error (.panic text) => .error (.executionFailure text)
  | .error (.error text) => .error (.endorsementPolicy text)
  | .ok va =>
    match v.codec.txRwSetFromProtoBytes va.rwset with
    | .error text =>
      .error (.endorsementPolicy
        ("txRWSet.FromProtoBytes failed on tx (" ++
          toString v.blockNumber ++ "," ++ toString i ++ "): " ++ text))
    | .ok rwset =>
      evaluate v.support (v.blockNumber, i) ccEP
        (signatureSet va.prp va.endorsements) ns updated rwset

def verdict (ns : GoString) (ccEP : Bytes) (i : ℕ) : NsResult :=
  nsEvaluation v block ns ccEP i fun key =>
    (List.range i).attach.any fun j =>
      decide (key ∈ depKeys v block j.1) && (verdict ns ccEP j.1).succeeded
termination_by i
decreasing_by exact List.mem_range.mp j.2

def updatedBefore (ns : GoString) (ccEP : Bytes) (i : ℕ) (key : LedgerKeyID) : Bool :=
  (List.range i).any fun j =>
    decide (key ∈ depKeys v block j) && (verdict v block ns ccEP j).succeeded

theorem verdict_eq (ns : GoString) (ccEP : Bytes) (i : ℕ) :
    verdict v b ns ccEP i = nsEvaluation v b ns ccEP i (updatedBefore v b ns ccEP i) := by
  rw [verdict]
  congr 1
  funext key
  unfold updatedBefore
  rw [Bool.eq_iff_iff]
  simp only [any_eq_true]
  constructor
  · rintro ⟨j, -, hj⟩
    exact ⟨j.1, j.2, hj⟩
  · rintro ⟨j, hm, hj⟩
    exact ⟨⟨j, hm⟩, mem_attach _ _, hj⟩

theorem succeeded_iff {r : NsResult} : r.succeeded = true ↔ r = .ok () := by
  cases r with
  | error | ok => simp [NsResult.succeeded]

variable {ns : GoString} {ccEP : Bytes}

theorem updatedBefore_iff {i : ℕ} {key : LedgerKeyID} :
    updatedBefore v b ns ccEP i key = true ↔
      ∃ j < i, key ∈ depKeys v b j ∧ verdict v b ns ccEP j = .ok () := by
  simp [updatedBefore, succeeded_iff]

theorem updatedBefore_eq_false_iff {i : ℕ} {key : LedgerKeyID} :
    updatedBefore v b ns ccEP i key = false ↔
      ∀ j < i, key ∈ depKeys v b j → verdict v b ns ccEP j ≠ .ok () := by
  rw [← Bool.not_eq_true, updatedBefore_iff]
  push Not
  rfl

inductive Reaches (i : ℕ) (ns : GoString) (ccEP : Bytes) :
    List SignedData → List LedgerKeyID → PolicyCheckerV20 → Prop where
  | start {va : ValidationArtifacts} {rwset : TxRwSet}
      (hartifacts : extractValidationArtifacts v (txBytes block i) = .ok va)
      (hrwset : v.codec.txRwSetFromProtoBytes va.rwset = .ok rwset) :
      Reaches i ns ccEP (signatureSet va.prp va.endorsements)
        ((writtenKeys rwset ns).map (WrittenKey.ledgerKeyID ns)) .new
  | next {sd : List SignedData} {key : LedgerKeyID} {keys : List LedgerKeyID}
      {checker next : PolicyCheckerV20}
      (hreaches : Reaches i ns ccEP sd (key :: keys) checker)
      (hcheck : checkSBAndCCEP v.support (v.blockNumber, i) ccEP sd key
        (getValidationParameterForKey v.support
          (updatedBefore v block ns ccEP i) key) checker = .ok next) :
      Reaches i ns ccEP sd keys next

def OnTrack (i : ℕ) (job : Job) (keys : List LedgerKeyID) (checker : PolicyCheckerV20) : Prop :=
  v.getInfoForValidate job.ns = .ok job.ccEP ∧
    verdict v block job.ns job.ccEP i =
      evaluateFrom v.support (v.blockNumber, i) job.ccEP job.sd job.ns
        (updatedBefore v block job.ns job.ccEP i) keys checker ∧
    Reaches v block i job.ns job.ccEP job.sd keys checker

def Covers (i : ℕ) (job : Job) (key : LedgerKeyID) (deps : List ℕ) : Prop :=
  (∀ dep ∈ deps, dep < i ∧ key ∈ depKeys v block dep) ∧
    ∀ j < i, key ∈ depKeys v block j → verdict v block job.ns job.ccEP j = .ok () → j ∈ deps

section Evaluation

variable {v block b} {i : ℕ} {job : Job} {key : LedgerKeyID} {dep : ℕ} {deps : List ℕ}

theorem Covers.drop (hc : Covers v b i job key (dep :: deps))
    (hf : verdict v b job.ns job.ccEP dep ≠ .ok ()) :
    Covers v b i job key deps := by
  constructor
  · intro other ho
    exact hc.1 other (mem_cons_of_mem _ ho)
  intro j hj hk hok
  rcases mem_cons.mp (hc.2 j hj hk hok) with heq | hlat
  · subst heq
    exact absurd hok hf
  · exact hlat

theorem Covers.pick (hc : Covers v b i job key deps) (hd : dep ∈ deps) :
    Covers v b i job key (dep :: deps.erase dep) := by
  have hm : ∀ j, j ∈ dep :: deps.erase dep ↔ j ∈ deps := by
    intro j
    by_cases heq : j = dep
    · subst heq
      simp [hd]
    · simp [heq, mem_erase_of_ne heq]
  constructor
  · intro other ho
    exact hc.1 other ((hm other).mp ho)
  · intro j hj hk hok
    exact (hm j).mpr (hc.2 j hj hk hok)

theorem Covers.not_updated (hc : Covers v b i job key []) :
    getValidationParameterForKey v.support (updatedBefore v b job.ns job.ccEP i) key =
      readValidationParameter v.support key := by
  have hu : updatedBefore v b job.ns job.ccEP i key = false := by
    rw [updatedBefore_eq_false_iff]
    intro j hj hk hok
    cases hc.2 j hj hk hok
  simp [getValidationParameterForKey, hu]

theorem Covers.updated (hc : Covers v b i job key (dep :: deps))
    (hok : verdict v b job.ns job.ccEP dep = .ok ()) :
    getValidationParameterForKey v.support
        (updatedBefore v b job.ns job.ccEP i) key = .error .updated := by
  obtain ⟨hlt, hk⟩ := hc.1 dep mem_cons_self
  have hu : updatedBefore v b job.ns job.ccEP i key = true :=
    (updatedBefore_iff v b).mpr ⟨dep, hlt, hk, hok⟩
  simp [getValidationParameterForKey, hu]

section Turn

variable {job : Job} {key : LedgerKeyID} {keys : List LedgerKeyID}
  {checker next : PolicyCheckerV20} {vp : Except ParameterError Bytes}

theorem OnTrack.passes (htr : OnTrack v b i job (key :: keys) checker)
    (hpr : getValidationParameterForKey v.support (updatedBefore v b job.ns job.ccEP i) key = vp)
    (hc : checkSBAndCCEP v.support (v.blockNumber, i) job.ccEP job.sd key vp checker = .ok next) :
    OnTrack v b i job keys next := by
  subst hpr
  refine ⟨htr.1, htr.2.1.trans ?_, htr.2.2.next hc⟩
  rw [evaluateFrom, hc]

theorem OnTrack.fails {err : TxValidationError} (htr : OnTrack v b i job (key :: keys) checker)
    (hpr : getValidationParameterForKey v.support (updatedBefore v b job.ns job.ccEP i) key = vp)
    (hc : checkSBAndCCEP v.support (v.blockNumber, i) job.ccEP job.sd key vp checker = .error err) :
    .error err = verdict v b job.ns job.ccEP i := by
  rw [htr.2.1, evaluateFrom, hpr, hc]

end Turn

end Evaluation

theorem verdict_sound {k : ℕ} (hok : verdict v b ns ccEP k = .ok ()) :
    ∃ va rws, extractValidationArtifacts v (txBytes b k) = .ok va ∧
      v.codec.txRwSetFromProtoBytes va.rwset = .ok rws ∧
      (∀ wr ∈ writtenKeys rws ns,
        Endorsed v.support ccEP (signatureSet va.prp va.endorsements) ns wr.seen ∧
          updatedBefore v b ns ccEP k (wr.ledgerKeyID ns) = false) ∧
      SomePolicyAccepted v.support ccEP (signatureSet va.prp va.endorsements) ns := by
  rw [verdict_eq] at hok
  unfold nsEvaluation at hok
  split at hok
  · cases hok
  · cases hok
  rename_i va har
  split at hok
  · cases hok
  next rws hrw =>
    obtain ⟨hky, hsm⟩ := evaluate_sound v.support hok
    exact ⟨va, rws, har, hrw, hky, hsm⟩

end FabricSequencer.TxValidator
