import FabricSequencer.ReadWriteSet

/-!
# Key-level endorsement policies

`baseEvaluator.Evaluate` goes through the keys that a transaction writes in a
namespace.  The endorsements of the transaction have to satisfy the validation
parameter of the key if there is one, else the endorsement policy of its
collection, else that of the chaincode; `policyCheckerV20` remembers which of
the last two have been evaluated.

The committed state and the evaluation of a policy are given.  A key of a
collection is its hash.  Keys are compared as `ledgerKeyID`s, in which a
collection with the empty name stands for the public state.
-/

namespace FabricSequencer.Statebased

structure LedgerKeyID where
  cc : GoString
  coll : GoString
  key : GoString
deriving DecidableEq

/-- `VSCCEndorsementPolicyError` and `VSCCExecutionFailureError`. -/
inductive TxValidationError where
  | endorsementPolicy (text : String)
  | executionFailure (text : String)
deriving DecidableEq

/-- The errors of `GetValidationParameterForKey` that are told apart. -/
inductive ParameterError where
  | updated
  | collConfigNotDefined
  | invalidCollName
  | other (text : String)

structure CommittedState where
  metadata : GoString → GoString → Bytes
  hashedMetadata : GoString → GoString → GoString → Bytes
  collections : GoString → Option (List GoString)

/-- What the checks of a block read.  The policy of a validation parameter is
the marshalled `ApplicationPolicy`, which has at least a tag. -/
structure Support (Signature : Type) where
  state : CommittedState
  readFailure : LedgerKeyID → Option String
  applicationPolicy : Bytes → Except String Bytes
  applicationPolicy_ne : ∀ {parameter policy : Bytes},
    applicationPolicy parameter = .ok policy → policy ≠ []
  collectionValidationInfo : GoString → GoString → Except TxValidationError Bytes
  evaluate : Bytes → List Signature → Except String Unit

variable {Signature : Type} (support sup : Support Signature)

def translate (parameter : Bytes) : Except String Bytes :=
  if parameter.length = 0 then .ok parameter
  else support.applicationPolicy parameter

def translated (key : LedgerKeyID) (parameter : Bytes) : Except ParameterError Bytes :=
  match translate support parameter with
  | .error err =>
    .error (.other ("could not translate policy for " ++ printed key.cc ++
      ":" ++ printed key.key ++ ": " ++ err))
  | .ok policy => .ok policy

/-- `GetValidationParameterForKey`, after the transactions before have been
waited for. -/
def readValidationParameter (key : LedgerKeyID) : Except ParameterError Bytes :=
  match support.readFailure key with
  | some err => .error (.other err)
  | none =>
    if key.coll = [] then
      translated support key (support.state.metadata key.cc key.key)
    else
      match support.state.collections key.cc with
      | none => .error .collConfigNotDefined
      | some names =>
        if key.coll ∈ names then
          translated support key (support.state.hashedMetadata key.cc key.coll key.key)
        else .error .invalidCollName

/-- `GetValidationParameterForKey`.  `updated` tells whether a transaction
before has set the parameter. -/
def getValidationParameterForKey (updated : LedgerKeyID → Bool)
    (key : LedgerKeyID) : Except ParameterError Bytes :=
  if updated key then .error .updated else readValidationParameter support key

structure PolicyCheckerV20 where
  someEPChecked : Bool
  nsEPChecked : List GoString
deriving DecidableEq

def PolicyCheckerV20.new : PolicyCheckerV20 := ⟨false, []⟩

section Checks

variable (height : ℕ × ℕ) (ccEP : Bytes) (sd : List Signature)

def inTx : String := "in tx " ++ toString height.1 ++ ":" ++ toString height.2 ++ " failed: "

/-- The last part of `CheckCCEPIfNotChecked`. -/
def checkCCEP (cc : GoString) (checker : PolicyCheckerV20) :
    Except TxValidationError PolicyCheckerV20 :=
  match support.evaluate ccEP sd with
  | .error err =>
    .error (.endorsementPolicy ("validation of endorsement policy for " ++
      "chaincode " ++ printed cc ++ " " ++ inTx height ++ err))
  | .ok () => .ok ⟨true, [] :: checker.nsEPChecked⟩

def checkCCEPIfNotChecked (key : LedgerKeyID) (checker : PolicyCheckerV20) :
    Except TxValidationError PolicyCheckerV20 :=
  if key.coll ≠ [] ∧ key.coll ∈ checker.nsEPChecked then .ok checker
  else
    match (if key.coll = [] then .ok []
      else support.collectionValidationInfo key.cc key.coll) with
    | .error err => .error err
    | .ok collEP =>
      if collEP.length ≠ 0 then
        match support.evaluate collEP sd with
        | .error err =>
          .error (.endorsementPolicy ("validation of endorsement policy " ++
            "for collection " ++ printed key.coll ++ " chaincode " ++
            printed key.cc ++ " " ++ inTx height ++ err))
        | .ok () => .ok ⟨true, key.coll :: checker.nsEPChecked⟩
      else if [] ∈ checker.nsEPChecked then .ok checker
      else checkCCEP support height ccEP sd key.cc checker

def checkCCEPIfNoEPChecked (cc : GoString) (checker : PolicyCheckerV20) :
    Except TxValidationError PolicyCheckerV20 :=
  if checker.someEPChecked then .ok checker
  else checkCCEP support height ccEP sd cc checker

/-- `checkSBAndCCEP`, with the parameter that was read. -/
def checkSBAndCCEP (key : LedgerKeyID) (vp : Except ParameterError Bytes)
    (checker : PolicyCheckerV20) :
    Except TxValidationError PolicyCheckerV20 :=
  match vp with
  | .error .updated =>
    .error (.endorsementPolicy ("validation parameters for key [" ++
      printed key.key ++ "] in namespace [" ++ printed key.cc ++ ":" ++
      printed key.coll ++ "] have been changed in transaction " ++
      toString height.2 ++ " of block " ++ toString height.1))
  | .error .collConfigNotDefined => checkCCEPIfNotChecked support height ccEP sd key checker
  | .error .invalidCollName => checkCCEPIfNotChecked support height ccEP sd key checker
  | .error (.other err) => .error (.executionFailure err)
  | .ok vp =>
    if vp.length = 0 then checkCCEPIfNotChecked support height ccEP sd key checker
    else
      match support.evaluate vp sd with
      | .error err =>
        .error (.endorsementPolicy ("validation of key " ++
          printed key.key ++ " (coll'" ++ printed key.coll ++ "':ns'" ++
          printed key.cc ++ "') " ++ inTx height ++ err))
      | .ok () => .ok { checker with someEPChecked := true }

end Checks

inductive WrittenKey where
  | pub (key : GoString)
  | hashed (coll keyHash : GoString)
deriving DecidableEq

def WrittenKey.ledgerKeyID (ns : GoString) : WrittenKey → LedgerKeyID
  | .pub key => ⟨ns, [], key⟩
  | .hashed coll keyHash => ⟨ns, coll, keyHash⟩

def NsRwSet.written (nsRWSet : NsRwSet) : List WrittenKey :=
  nsRWSet.kvRwSet.writes.map (fun write => .pub write.key) ++
    nsRWSet.kvRwSet.metadataWrites.map (fun write => .pub write.key) ++
    nsRWSet.collHashedRwSets.flatMap (fun collRWSet =>
      collRWSet.hashedRwSet.hashedWrites.map fun write =>
        .hashed collRWSet.collectionName write.keyHash) ++
    nsRWSet.collHashedRwSets.flatMap fun collRWSet =>
      collRWSet.hashedRwSet.metadataWrites.map fun write =>
        .hashed collRWSet.collectionName write.keyHash

/-- The keys in the order in which `Evaluate` visits them. -/
def writtenKeys (rwset : TxRwSet) (ns : GoString) : List WrittenKey :=
  (rwset.nsRwSets.filter fun nsRWSet => nsRWSet.nameSpace = ns).flatMap NsRwSet.written

def NsRwSet.metadataWritten (nsRWSet : NsRwSet) : List WrittenKey :=
  nsRWSet.kvRwSet.metadataWrites.map (fun write => .pub write.key) ++
    nsRWSet.collHashedRwSets.flatMap fun collRWSet =>
      collRWSet.hashedRwSet.metadataWrites.map fun write =>
        .hashed collRWSet.collectionName write.keyHash

/-- The dependencies that `ExtractValidationParameterDependency` adds. -/
def metadataKeys (rwset : TxRwSet) : List LedgerKeyID :=
  rwset.nsRwSets.flatMap fun nsRWSet =>
    (NsRwSet.metadataWritten nsRWSet).map (WrittenKey.ledgerKeyID nsRWSet.nameSpace)

/-- The loop of `Evaluate` over the keys that are left, and the check at its
end. -/
def evaluateFrom (height : ℕ × ℕ) (ccEP : Bytes) (sd : List Signature)
    (ns : GoString) (updated : LedgerKeyID → Bool) (keys : List LedgerKeyID)
    (checker : PolicyCheckerV20) : Except TxValidationError Unit :=
  match keys with
  | [] =>
    match checkCCEPIfNoEPChecked support height ccEP sd ns checker with
    | .error err => .error err
    | .ok _ => .ok ()
  | key :: keys =>
    match checkSBAndCCEP support height ccEP sd key
      (getValidationParameterForKey support updated key) checker with
    | .error err => .error err
    | .ok checker => evaluateFrom height ccEP sd ns updated keys checker

def evaluate (height : ℕ × ℕ) (ccEP : Bytes) (sd : List Signature)
    (ns : GoString) (updated : LedgerKeyID → Bool) (rwset : TxRwSet) :
    Except TxValidationError Unit :=
  evaluateFrom support height ccEP sd ns updated
    ((writtenKeys rwset ns).map (WrittenKey.ledgerKeyID ns)) .new

def heldParameter (ns : GoString) : WrittenKey → Bytes
  | .pub key => support.state.metadata ns key
  | .hashed coll keyHash =>
    if coll ∈ (support.state.collections ns).getD [] then
      support.state.hashedMetadata ns coll keyHash
    else []

section Specification

variable (ccEP : Bytes) (sd : List Signature)

def Accepted (policy : Bytes) : Prop := support.evaluate policy sd = .ok ()

variable (ns : GoString)

def FallbackAccepted : WrittenKey → Prop
  | .pub _ => Accepted support sd ccEP
  | .hashed coll _ =>
    ∃ collEP, support.collectionValidationInfo ns coll = .ok collEP ∧
      Accepted support sd (if collEP = [] then ccEP else collEP)

def Endorsed (written : WrittenKey) : Prop :=
  (heldParameter support ns written ≠ [] →
      ∃ policy, support.applicationPolicy (heldParameter support ns written) =
        .ok policy ∧ Accepted support sd policy) ∧
    (heldParameter support ns written = [] → FallbackAccepted support ccEP sd ns written)

/-- A policy that is in force for the namespace or for a key of it has accepted
the endorsements. -/
def SomePolicyAccepted : Prop :=
  Accepted support sd ccEP ∨
    (∃ coll collEP, support.collectionValidationInfo ns coll = .ok collEP ∧
      Accepted support sd collEP) ∨
    ∃ written policy, support.applicationPolicy (heldParameter support ns written) = .ok policy ∧
      Accepted support sd policy

/-- The collection of the key, if it is in one, has a name. -/
def WrittenKey.Named : WrittenKey → Prop
  | .pub _ => True
  | .hashed coll _ => coll ≠ []

def WrittenKey.seen : WrittenKey → WrittenKey
  | .pub key => .pub key
  | .hashed coll keyHash =>
    if coll = [] then .pub keyHash else .hashed coll keyHash

structure PolicyCheckerV20.Sound (checker : PolicyCheckerV20) : Prop where
  some_checked : checker.someEPChecked = true → SomePolicyAccepted support ccEP sd ns
  chaincode : [] ∈ checker.nsEPChecked → Accepted support sd ccEP
  collection : ∀ {coll}, coll ≠ [] → coll ∈ checker.nsEPChecked →
    ∃ collEP, collEP ≠ [] ∧ support.collectionValidationInfo ns coll = .ok collEP ∧
      Accepted support sd collEP

end Specification

/-! ## The checks establish it -/

section Soundness

variable {height : ℕ × ℕ} {ccEP : Bytes} {sd : List Signature} {ns : GoString}
  {chk next : PolicyCheckerV20}

theorem sound_new : PolicyCheckerV20.new.Sound sup ccEP sd ns where
  some_checked hchecked := by cases hchecked
  chaincode hmem := by cases hmem
  collection _ hmem := by cases hmem

theorem checkCCEP_sound (hsn : chk.Sound sup ccEP sd ns)
    (hc : checkCCEP sup height ccEP sd ns chk = .ok next) :
    next.Sound sup ccEP sd ns ∧ Accepted sup sd ccEP := by
  unfold checkCCEP at hc
  cases ha : sup.evaluate ccEP sd with
  | error =>
    rw [ha] at hc
    cases hc
  | ok =>
    rw [ha] at hc
    cases hc
    refine ⟨⟨fun _ => .inl ha, fun _ => ha, ?_⟩, ha⟩
    intro _ hnm hm
    exact hsn.collection hnm ((List.mem_cons.mp hm).resolve_left hnm)

theorem checkCCEPIfNoEPChecked_sound (hsn : chk.Sound sup ccEP sd ns)
    (hc : checkCCEPIfNoEPChecked sup height ccEP sd ns chk = .ok next) :
    SomePolicyAccepted sup ccEP sd ns := by
  unfold checkCCEPIfNoEPChecked at hc
  split_ifs at hc with hchecked
  · exact hsn.some_checked hchecked
  · exact .inl (checkCCEP_sound sup hsn hc).2

theorem checkCCEPIfNotChecked_pub {key : GoString} (hsn : chk.Sound sup ccEP sd ns)
    (hc : checkCCEPIfNotChecked sup height ccEP sd ⟨ns, [], key⟩ chk = .ok next) :
    next.Sound sup ccEP sd ns ∧ Accepted sup sd ccEP := by
  simp only [checkCCEPIfNotChecked, ne_eq, not_true_eq_false, false_and,
    if_true, if_false, List.length_nil] at hc
  split_ifs at hc with hh
  · cases hc
    exact ⟨hsn, hsn.chaincode hh⟩
  · exact checkCCEP_sound sup hsn hc

theorem checkCCEPIfNotChecked_hashed {coll kh : GoString}
    (hnm : coll ≠ []) (hsn : chk.Sound sup ccEP sd ns)
    (hc : checkCCEPIfNotChecked sup height ccEP sd ⟨ns, coll, kh⟩ chk = .ok next) :
    next.Sound sup ccEP sd ns ∧ FallbackAccepted sup ccEP sd ns (.hashed coll kh) := by
  simp only [checkCCEPIfNotChecked, ne_eq, hnm, not_false_eq_true, true_and, if_false] at hc
  by_cases hh : coll ∈ chk.nsEPChecked
  · rw [if_pos hh] at hc
    cases hc
    obtain ⟨collEP, hne, hin, _⟩ := hsn.collection hnm hh
    exact ⟨hsn, collEP, hin, by rwa [if_neg hne]⟩
  rw [if_neg hh] at hc
  cases hin : sup.collectionValidationInfo ns coll with
  | error =>
    rw [hin] at hc
    cases hc
  | ok collEP =>
    simp only [hin, List.length_eq_zero_iff] at hc
    by_cases hn : collEP = []
    · rw [if_neg (not_not.mpr hn)] at hc
      by_cases hch : [] ∈ chk.nsEPChecked
      · rw [if_pos hch] at hc
        cases hc
        refine ⟨hsn, collEP, hin, ?_⟩
        rw [if_pos hn]
        exact hsn.chaincode hch
      · rw [if_neg hch] at hc
        obtain ⟨hnx, _⟩ := checkCCEP_sound sup hsn hc
        exact ⟨hnx, collEP, hin, by rwa [if_pos hn]⟩
    · rw [if_pos hn] at hc
      cases ha : sup.evaluate collEP sd with
      | error =>
        rw [ha] at hc
        cases hc
      | ok =>
        rw [ha] at hc
        cases hc
        refine ⟨⟨?_, ?_, ?_⟩, collEP, hin, by rwa [if_neg hn]⟩
        · intro _
          exact .inr (.inl ⟨coll, collEP, hin, ha⟩)
        · intro hm
          exact hsn.chaincode ((List.mem_cons.mp hm).resolve_left (Ne.symm hnm))
        intro _ ho hm
        rcases List.mem_cons.mp hm with heq | hearl
        · subst heq
          exact ⟨collEP, hn, hin, ha⟩
        · exact hsn.collection ho hearl

variable {written : WrittenKey}

theorem checkCCEPIfNotChecked_sound (hnm : written.Named) (hsn : chk.Sound sup ccEP sd ns)
    (hc : checkCCEPIfNotChecked sup height ccEP sd (written.ledgerKeyID ns) chk = .ok next) :
    next.Sound sup ccEP sd ns ∧ FallbackAccepted sup ccEP sd ns written := by
  cases written with
  | pub => exact checkCCEPIfNotChecked_pub sup hsn hc
  | hashed => exact checkCCEPIfNotChecked_hashed sup hnm hsn hc

theorem translated_eq_ok {key : LedgerKeyID} {parameter vp : Bytes}
    (htr : translated sup key parameter = .ok vp) :
    (parameter = [] ∧ vp = []) ∨
      parameter ≠ [] ∧ vp ≠ [] ∧ sup.applicationPolicy parameter = .ok vp := by
  unfold translated translate at htr
  by_cases hn : parameter = []
  · subst hn
    cases htr
    exact .inl ⟨rfl, rfl⟩
  rw [if_neg (by simpa using hn)] at htr
  cases hpol : sup.applicationPolicy parameter with
  | error =>
    rw [hpol] at htr
    cases htr
  | ok =>
    rw [hpol] at htr
    cases htr
    exact .inr ⟨hn, sup.applicationPolicy_ne hpol, rfl⟩

def ParameterSpec (ns : GoString) (written : WrittenKey) : Except ParameterError Bytes → Prop
  | .ok vp => (heldParameter support ns written = [] ∧ vp = []) ∨
      heldParameter support ns written ≠ [] ∧ vp ≠ [] ∧
        support.applicationPolicy (heldParameter support ns written) = .ok vp
  | .error (.other _) => True
  | .error _ => heldParameter support ns written = []

theorem parameterSpec_translated (key : LedgerKeyID)
    {parameter : Bytes} (hhl : heldParameter sup ns written = parameter) :
    ParameterSpec sup ns written (translated sup key parameter) := by
  subst hhl
  cases htr : translated sup key (heldParameter sup ns written) with
  | error =>
    unfold translated at htr
    split at htr
    · cases htr
      trivial
    · cases htr
  | ok => exact translated_eq_ok sup htr

theorem readValidationParameter_spec (hnm : written.Named) :
    ParameterSpec sup ns written (readValidationParameter sup (written.ledgerKeyID ns)) := by
  unfold readValidationParameter
  cases sup.readFailure (written.ledgerKeyID ns) with
  | some => trivial
  | none =>
    cases written with
    | pub => exact parameterSpec_translated sup _ rfl
    | hashed coll kh =>
      have hco : (WrittenKey.ledgerKeyID ns (.hashed coll kh)).coll ≠ [] := hnm
      rw [if_neg hco]
      simp only [WrittenKey.ledgerKeyID]
      cases hc : sup.state.collections ns with
      | none => simp [ParameterSpec, heldParameter, hc]
      | some nms =>
        by_cases hm : coll ∈ nms
        · simp only [hm, if_true]
          apply parameterSpec_translated
          simp [heldParameter, hc, hm]
        · simp [hm, ParameterSpec, heldParameter, hc]

theorem endorsed_of_fallback (hnm : written.Named)
    (hhl : heldParameter sup ns written = []) (hsn : chk.Sound sup ccEP sd ns)
    (hc : checkCCEPIfNotChecked sup height ccEP sd (written.ledgerKeyID ns) chk = .ok next) :
    next.Sound sup ccEP sd ns ∧ Endorsed sup ccEP sd ns written := by
  obtain ⟨hnx, hfl⟩ := checkCCEPIfNotChecked_sound sup hnm hsn hc
  exact ⟨hnx, fun hne => absurd hhl hne, fun _ => hfl⟩

theorem checkSBAndCCEP_read_sound (hnm : written.Named) (hsn : chk.Sound sup ccEP sd ns)
    (hc : checkSBAndCCEP sup height ccEP sd (written.ledgerKeyID ns)
      (readValidationParameter sup (written.ledgerKeyID ns))
      chk = .ok next) :
    next.Sound sup ccEP sd ns ∧ Endorsed sup ccEP sd ns written := by
  have hsp : ParameterSpec sup ns written (readValidationParameter sup (written.ledgerKeyID ns)) :=
    readValidationParameter_spec sup hnm
  cases hrd : readValidationParameter sup (written.ledgerKeyID ns) with
  | error err =>
    rw [hrd] at hc hsp
    cases err with
    | updated | other => cases hc
    | collConfigNotDefined | invalidCollName =>
      exact endorsed_of_fallback sup hnm hsp hsn hc
  | ok vp =>
    rw [hrd] at hc hsp
    simp only [checkSBAndCCEP, List.length_eq_zero_iff] at hc
    rcases hsp with ⟨hhl, hvp⟩ | ⟨hhl, hvp, hpol⟩
    · rw [if_pos hvp] at hc
      exact endorsed_of_fallback sup hnm hhl hsn hc
    rw [if_neg hvp] at hc
    cases ha : sup.evaluate vp sd with
    | error =>
      rw [ha] at hc
      cases hc
    | ok =>
      rw [ha] at hc
      cases hc
      refine ⟨⟨?_, hsn.chaincode, hsn.collection⟩, ?_, ?_⟩
      · intro _
        exact .inr (.inr ⟨written, vp, hpol, ha⟩)
      · intro _
        exact ⟨vp, hpol, ha⟩
      · intro hno
        exact absurd hno hhl

variable {updated : LedgerKeyID → Bool}

theorem checkSBAndCCEP_sound (hnm : written.Named) (hsn : chk.Sound sup ccEP sd ns)
    (hc : checkSBAndCCEP sup height ccEP sd (written.ledgerKeyID ns)
      (getValidationParameterForKey sup updated (written.ledgerKeyID ns))
      chk = .ok next) :
    next.Sound sup ccEP sd ns ∧ Endorsed sup ccEP sd ns written ∧
      updated (written.ledgerKeyID ns) = false := by
  unfold getValidationParameterForKey at hc
  split_ifs at hc with hu
  · cases hc
  · obtain ⟨hnx, heo⟩ := checkSBAndCCEP_read_sound sup hnm hsn hc
    exact ⟨hnx, heo, by simpa using hu⟩

theorem seen_named (written : WrittenKey) : written.seen.Named := by
  cases written with
  | pub => trivial
  | hashed =>
    simp only [WrittenKey.seen]
    split_ifs with hcoll
    · trivial
    · exact hcoll

theorem seen_ledgerKeyID (ns : GoString) (written : WrittenKey) :
    written.seen.ledgerKeyID ns = written.ledgerKeyID ns := by
  cases written with
  | pub => rfl
  | hashed =>
    simp only [WrittenKey.seen]
    split_ifs with hcoll
    · subst hcoll
      rfl
    · rfl

theorem seen_of_named (hnm : written.Named) : written.seen = written := by
  cases written with
  | pub => rfl
  | hashed => exact if_neg hnm

theorem evaluateFrom_sound {written : List WrittenKey} (hsn : chk.Sound sup ccEP sd ns)
    (hev : evaluateFrom sup height ccEP sd ns updated
      (written.map (WrittenKey.ledgerKeyID ns)) chk = .ok ()) :
    (∀ key ∈ written, Endorsed sup ccEP sd ns key.seen ∧ updated (key.ledgerKeyID ns) = false) ∧
      SomePolicyAccepted sup ccEP sd ns := by
  induction written generalizing chk with
  | nil =>
    simp only [List.map_nil, evaluateFrom] at hev
    cases hc : checkCCEPIfNoEPChecked sup height ccEP sd ns chk with
    | error =>
      rw [hc] at hev
      cases hev
    | ok => exact ⟨by simp, checkCCEPIfNoEPChecked_sound sup hsn hc⟩
  | cons first _ ih =>
    simp only [List.map_cons, evaluateFrom] at hev
    split at hev
    · cases hev
    rename_i next hc
    rw [← seen_ledgerKeyID] at hc
    obtain ⟨hnx, hf, hu⟩ := checkSBAndCCEP_sound sup (seen_named first) hsn hc
    rw [seen_ledgerKeyID] at hu
    obtain ⟨hrs, hsm⟩ := ih hnx hev
    exact ⟨List.forall_mem_cons.mpr ⟨⟨hf, hu⟩, hrs⟩, hsm⟩

theorem evaluate_sound {rw : TxRwSet} (hev : evaluate sup height ccEP sd ns updated rw = .ok ()) :
    (∀ key ∈ writtenKeys rw ns, Endorsed sup ccEP sd ns key.seen ∧
        updated (key.ledgerKeyID ns) = false) ∧
      SomePolicyAccepted sup ccEP sd ns :=
  evaluateFrom_sound sup (sound_new sup) hev

end Soundness

end FabricSequencer.Statebased
