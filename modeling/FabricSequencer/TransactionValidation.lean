import FabricSequencer.CombinedIterator
import FabricSequencer.MerkleSummary

/-!
# Validation of a transaction's read set

`validateTx` compares the versions a transaction has read with the committed
state and the updates of the preceding valid transactions of the block, and
runs its range queries again over both.
-/

namespace FabricSequencer

inductive TxValidationCode where
  | valid
  | mvccReadConflict
  | phantomReadConflict
deriving DecidableEq

/-- `rangeQueryResultsValidator.validate`.  The version of a raw read is
dereferenced once the keys agree. -/
def validateRawReads : List KVRead → List VersionedKV → Outcome Bool
  | [], results => .ok results.isEmpty
  | _ :: _, [] => .ok false
  | kvRead :: reads, result :: results =>
    if result.key ≠ kvRead.key then .ok false
    else
      match kvRead.version with
      | none => .error (.panic "invalid memory address or nil pointer dereference")
      | some version =>
        if !areSame (some result.version) (some version) then .ok false
        else validateRawReads reads results

def merkleSummariesEqual (ms : QueryReadsMerkleSummary) : Option QueryReadsMerkleSummary → Bool
  | none => false
  | some anotherMS =>
    ms.maxDegree == anotherMS.maxDegree && ms.maxLevel == anotherMS.maxLevel &&
      ms.maxLevelHashes == anotherMS.maxLevelHashes

/-- The loop of `rangeQueryHashValidator.validate`; `matched` is one more than
`lastMatchedIndex`. -/
def compareHashes (hashFunc : Bytes → Bytes) (inMerkle : QueryReadsMerkleSummary) :
    RangeQueryResultsHelper → ℕ → List VersionedKV → Outcome Bool
  | helper, _, [] => .ok (merkleSummariesEqual inMerkle (helper.done hashFunc).2)
  | helper, matched, result :: results =>
    let added := helper.addResult hashFunc (newKVRead result.key (some result.version))
    let merkle := added.getMerkleSummary
    if merkle.maxLevel < inMerkle.maxLevel then
      compareHashes hashFunc inMerkle added matched results
    else if matched = merkle.maxLevelHashes.length then
      compareHashes hashFunc inMerkle added matched results
    else if merkle.maxLevelHashes.length > inMerkle.maxLevelHashes.length then
      .ok false
    else
      match merkle.maxLevelHashes[matched]?, inMerkle.maxLevelHashes[matched]? with
      | some hash, some inHash =>
        if hash = inHash then
          compareHashes hashFunc inMerkle added (matched + 1) results
        else .ok false
      | _, _ => .error (.panic "index out of range")

variable (hashFunc hash : Bytes → Bytes)

def validateHashes (inMerkle : QueryReadsMerkleSummary) (results : List VersionedKV) :
    Outcome Bool := do
  let helper ← newRangeQueryResultsHelper true inMerkle.maxDegree
  compareHashes hashFunc inMerkle helper 0 results

/-- The validator that `validateRangeQuery` chooses, on the results of the
combined iterator. -/
def validateResults (readsInfo : ReadsInfo) (results : List VersionedKV) : Outcome Bool :=
  match readsInfo with
  | .readsMerkleHashes inMerkle => validateHashes hashFunc inMerkle results
  | _ => validateRawReads readsInfo.kvReads results

variable (db : DB) (ns : GoString)

def validateRangeQuery (rangeQueryInfo : RangeQueryInfo) (updates : UpdateBatch) : Outcome Bool :=
  let includeEndKey := !rangeQueryInfo.itrExhausted
  let combinedItr := newCombinedIterator db updates ns rangeQueryInfo.startKey
    rangeQueryInfo.endKey includeEndKey
  validateResults hashFunc rangeQueryInfo.readsInfo combinedItr.results

def validateRangeQueries (hashFunc : Bytes → Bytes) (db : DB) (ns : GoString)
    (updates : UpdateBatch) : List RangeQueryInfo → Outcome Bool
  | [] => .ok true
  | rqi :: rangeQueriesInfo =>
    match validateRangeQuery hashFunc db ns rqi updates with
    | .error failure => .error failure
    | .ok false => .ok false
    | .ok true => validateRangeQueries hashFunc db ns updates rangeQueriesInfo

def validateKVRead (updates : UpdateBatch) (kvRead : KVRead) : Bool :=
  if updates.exist ns kvRead.key then false
  else areSame (db.getVersion (.pub ns) kvRead.key) kvRead.version

def validateReadSet (updates : UpdateBatch) (kvReads : List KVRead) : Bool :=
  kvReads.all (validateKVRead db ns updates)

def validateKVReadHash (ns coll : GoString)
    (updates : HashedUpdateBatch) (kvReadHash : KVReadHash) : Bool :=
  if updates.contains ns coll kvReadHash.keyHash then false
  else
    areSame (db.getKeyHashVersion ns coll kvReadHash.keyHash) kvReadHash.version

def validateCollHashedReadSet (ns coll : GoString)
    (updates : HashedUpdateBatch) (kvReadHashes : List KVReadHash) : Bool :=
  kvReadHashes.all (validateKVReadHash db ns coll updates)

def validateNsHashedReadSets
    (updates : HashedUpdateBatch) (collHashedRWSets : List CollHashedRwSet) :
    Bool :=
  collHashedRWSets.all fun collHashedRWSet =>
    validateCollHashedReadSet db ns collHashedRWSet.collectionName updates
      collHashedRWSet.hashedRwSet.hashedReads

/-- One turn of the loop of `validateTx`: `none` goes on with the next
namespace. -/
def validateNs (updates : PublicAndHashUpdates) (nsRWSet : NsRwSet) :
    Outcome (Option TxValidationCode) :=
  let ns := nsRWSet.nameSpace
  if !validateReadSet db ns updates.publicUpdates nsRWSet.kvRwSet.reads then
    .ok (some .mvccReadConflict)
  else
    match validateRangeQueries hashFunc db ns updates.publicUpdates
        nsRWSet.kvRwSet.rangeQueriesInfo with
    | .error failure => .error failure
    | .ok false => .ok (some .phantomReadConflict)
    | .ok true =>
      if !validateNsHashedReadSets db ns updates.hashUpdates nsRWSet.collHashedRwSets then
        .ok (some .mvccReadConflict)
      else .ok none

def validateNsRwSets (hashFunc : Bytes → Bytes) (db : DB)
    (updates : PublicAndHashUpdates) : List NsRwSet → Outcome TxValidationCode
  | [] => .ok .valid
  | nsRWSet :: nsRwSets =>
    match validateNs hashFunc db updates nsRWSet with
    | .error failure => .error failure
    | .ok (some code) => .ok code
    | .ok none => validateNsRwSets hashFunc db updates nsRwSets

def validateTx (txRWSet : TxRwSet) (updates : PublicAndHashUpdates) : Outcome TxValidationCode :=
  validateNsRwSets hashFunc db updates txRWSet.nsRwSets

structure NsPasses (updates : PublicAndHashUpdates) (nsRWSet : NsRwSet) : Prop where
  reads : ∀ kvRead ∈ nsRWSet.kvRwSet.reads,
    updates.publicUpdates.getUpdate nsRWSet.nameSpace kvRead.key = none ∧
      db.getVersion (.pub nsRWSet.nameSpace) kvRead.key = kvRead.version
  rangeQueries : ∀ rqi ∈ nsRWSet.kvRwSet.rangeQueriesInfo,
    validateRangeQuery hashFunc db nsRWSet.nameSpace rqi updates.publicUpdates = .ok true
  hashedReads : ∀ coll ∈ nsRWSet.collHashedRwSets,
    ∀ kvReadHash ∈ coll.hashedRwSet.hashedReads,
      updates.hashUpdates.getUpdate nsRWSet.nameSpace coll.collectionName
          kvReadHash.keyHash = none ∧
        db.getKeyHashVersion nsRWSet.nameSpace coll.collectionName
          kvReadHash.keyHash = kvReadHash.version

variable {db : DB}

theorem validateKVRead_iff {ns : GoString} {updates : UpdateBatch} {kvRead : KVRead} :
    validateKVRead db ns updates kvRead = true ↔
      updates.getUpdate ns kvRead.key = none ∧
        db.getVersion (.pub ns) kvRead.key = kvRead.version := by
  unfold validateKVRead UpdateBatch.exist
  cases updates.getUpdate ns kvRead.key <;> simp

theorem validateKVReadHash_iff {ns coll : GoString}
    {updates : HashedUpdateBatch} {kv : KVReadHash} :
    validateKVReadHash db ns coll updates kv = true ↔
      updates.getUpdate ns coll kv.keyHash = none ∧
        db.getKeyHashVersion ns coll kv.keyHash = kv.version := by
  have hcn : updates.contains ns coll kv.keyHash =
      (updates.getUpdate ns coll kv.keyHash).isSome := rfl
  unfold validateKVReadHash
  rw [hcn]
  cases updates.getUpdate ns coll kv.keyHash <;> simp

variable {hashFunc hash : Bytes → Bytes}

theorem validateRangeQueries_iff
    {ns : GoString} {updates : UpdateBatch} {rangeQueriesInfo : List RangeQueryInfo} :
    validateRangeQueries hash db ns updates rangeQueriesInfo = .ok true ↔
      ∀ rqi ∈ rangeQueriesInfo, validateRangeQuery hash db ns rqi updates = .ok true := by
  induction rangeQueriesInfo with
  | nil => simp [validateRangeQueries]
  | cons rqi _ ih =>
    rw [List.forall_mem_cons, ← ih, validateRangeQueries]
    rcases validateRangeQuery hash db ns rqi updates with failure | (_ | _) <;> simp

variable {updates : PublicAndHashUpdates} {nsRWSet : NsRwSet}

theorem nsPasses_iff :
    NsPasses hash db updates nsRWSet ↔
      validateReadSet db nsRWSet.nameSpace updates.publicUpdates nsRWSet.kvRwSet.reads = true ∧
        validateRangeQueries hash db nsRWSet.nameSpace
          updates.publicUpdates nsRWSet.kvRwSet.rangeQueriesInfo = .ok true ∧
        validateNsHashedReadSets db nsRWSet.nameSpace updates.hashUpdates
          nsRWSet.collHashedRwSets = true := by
  simp only [validateReadSet, validateNsHashedReadSets, validateCollHashedReadSet,
    List.all_eq_true, validateKVRead_iff, validateKVReadHash_iff, validateRangeQueries_iff]
  constructor
  · intro hps
    exact ⟨hps.reads, hps.rangeQueries, hps.hashedReads⟩
  · rintro ⟨hrd, hq, hh⟩
    exact ⟨hrd, hq, hh⟩

theorem validateNs_spec :
    (validateNs hash db updates nsRWSet = .ok none ↔ NsPasses hash db updates nsRWSet) ∧
      validateNs hash db updates nsRWSet ≠ .ok (some .valid) ∧
      ((∃ failure, validateNs hash db updates nsRWSet = .error failure) ↔
        validateReadSet db nsRWSet.nameSpace updates.publicUpdates nsRWSet.kvRwSet.reads = true ∧
          ∃ failure, validateRangeQueries hash db nsRWSet.nameSpace updates.publicUpdates
            nsRWSet.kvRwSet.rangeQueriesInfo = .error failure) := by
  rw [nsPasses_iff]
  unfold validateNs
  dsimp only
  cases validateReadSet db nsRWSet.nameSpace updates.publicUpdates nsRWSet.kvRwSet.reads with
  | false => simp
  | true =>
    rcases validateRangeQueries hash db nsRWSet.nameSpace
        updates.publicUpdates nsRWSet.kvRwSet.rangeQueriesInfo with
      failure | (_ | _)
    · simp
    · simp
    · cases validateNsHashedReadSets db nsRWSet.nameSpace
          updates.hashUpdates nsRWSet.collHashedRwSets <;> simp

theorem validateNs_eq_none_iff :
    validateNs hash db updates nsRWSet = .ok none ↔ NsPasses hash db updates nsRWSet :=
  validateNs_spec.1

theorem validateNsRwSets_valid_iff {nsRwSets : List NsRwSet} :
    validateNsRwSets hash db updates nsRwSets = .ok .valid ↔
      ∀ nsRWSet ∈ nsRwSets, NsPasses hash db updates nsRWSet := by
  induction nsRwSets with
  | nil => simp [validateNsRwSets]
  | cons nsRWSet _ ih =>
    rw [List.forall_mem_cons, ← ih, ← validateNs_eq_none_iff, validateNsRwSets]
    rcases hns : validateNs hash db updates nsRWSet with failure | (_ | code)
    · simp
    · simp
    · have hn : code ≠ .valid := by
        rintro rfl
        exact validateNs_spec.2.1 hns
      simp [hn]

theorem validateRangeQuery_applyUpdates (hash : Bytes → Bytes) (db : DB)
    (updates : PublicAndHashUpdates) (ns : GoString) (rqi : RangeQueryInfo) :
    validateRangeQuery hash db ns rqi updates.publicUpdates =
      validateRangeQuery hash (db.applyUpdates updates) ns rqi
        newPubAndHashUpdates.publicUpdates := by
  unfold validateRangeQuery
  simp only [newCombinedIterator_results]
  rfl

theorem validateRangeQuery_eq (hash : Bytes → Bytes) (db : DB)
    (ns : GoString) (rqi : RangeQueryInfo) :
    validateRangeQuery hash db ns rqi newPubAndHashUpdates.publicUpdates =
      validateResults hash rqi.readsInfo
        (rangeResults (db.data (.pub ns)) rqi.startKey rqi.endKey (!rqi.itrExhausted)) := by
  unfold validateRangeQuery
  dsimp only
  rw [newCombinedIterator_results]
  congr 2

theorem getVersion_applyUpdates_of_not_changed (db : DB) (space : StateNs) {key : GoString}
    (hc : (updates.changes space).get key = none) :
    (db.applyUpdates updates).getVersion space key = db.getVersion space key := by
  unfold DB.getVersion
  rw [DB.getState_applyUpdates, hc]
  rfl

/-- The reads of the namespace that the updates have left alone. -/
def NsUntouched (updates : PublicAndHashUpdates) (nsRWSet : NsRwSet) : Prop :=
  (∀ kvRead ∈ nsRWSet.kvRwSet.reads,
    updates.publicUpdates.getUpdate nsRWSet.nameSpace kvRead.key = none) ∧
  ∀ coll ∈ nsRWSet.collHashedRwSets,
    ∀ kvReadHash ∈ coll.hashedRwSet.hashedReads,
      updates.hashUpdates.getUpdate nsRWSet.nameSpace coll.collectionName kvReadHash.keyHash = none

theorem nsPasses_iff_serial :
    NsPasses hash db updates nsRWSet ↔
      NsUntouched updates nsRWSet ∧
        NsPasses hash (db.applyUpdates updates) newPubAndHashUpdates
          nsRWSet := by
  constructor
  · intro hps
    refine ⟨⟨fun kvRead hm => (hps.reads kvRead hm).1,
      fun coll hco read hm => (hps.hashedReads coll hco read hm).1⟩,
      ?_, ?_, ?_⟩
    · intro kvRead hm
      obtain ⟨hc, hv⟩ := hps.reads kvRead hm
      refine ⟨rfl, ?_⟩
      rw [← hv]
      exact getVersion_applyUpdates_of_not_changed db (.pub _) hc
    · intro rqi hm
      rw [← validateRangeQuery_applyUpdates]
      exact hps.rangeQueries rqi hm
    · intro coll hco kv hm
      obtain ⟨hc, hv⟩ := hps.hashedReads coll hco kv hm
      refine ⟨rfl, ?_⟩
      rw [← hv]
      exact getVersion_applyUpdates_of_not_changed db (.hashed _ _) hc
  · rintro ⟨⟨hrd, hh⟩, hserial⟩
    refine ⟨?_, ?_, ?_⟩
    · intro kvRead hm
      refine ⟨hrd kvRead hm, ?_⟩
      rw [← (hserial.reads kvRead hm).2]
      exact (getVersion_applyUpdates_of_not_changed db (.pub _) (hrd kvRead hm)).symm
    · intro rqi hm
      rw [validateRangeQuery_applyUpdates]
      exact hserial.rangeQueries rqi hm
    · intro coll hco kv hm
      refine ⟨hh coll hco kv hm, ?_⟩
      rw [← (hserial.hashedReads coll hco kv hm).2]
      exact (getVersion_applyUpdates_of_not_changed db (.hashed _ _) (hh coll hco kv hm)).symm

end FabricSequencer
