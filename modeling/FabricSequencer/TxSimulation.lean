import FabricSequencer.MerkleSummary
import FabricSequencer.StateCall

/-!
# Transaction simulation

A transaction simulator answers reads from the committed state and records
them, together with the writes, in a builder for the read-write set.  The
operations of a simulator are calls that change it and may fail.

Only the public part of the read-write set is built here.  A simulator is used
until its results are taken: `Done` and `Close` come after that.  The state
database is the one of LevelDB, which has no rich queries and refuses no key.
-/

namespace FabricSequencer

structure CollHashRwBuilder where
  readMap : SortedMap GoString KVReadHash
  writeMap : SortedMap GoString KVWriteHash
  metadataWriteMap : SortedMap GoString KVMetadataWriteHash

def newCollHashRwBuilder : CollHashRwBuilder := ⟨SortedMap.empty, SortedMap.empty, SortedMap.empty⟩

/-- `nsPubRwBuilder`, with the entries of `rangeQueriesMap` in the order of
`rangeQueriesKeys`. -/
structure NsPubRwBuilder where
  readMap : SortedMap GoString KVRead
  writeMap : SortedMap GoString KVWrite
  metadataWriteMap : SortedMap GoString KVMetadataWrite
  rangeQueries : List RangeQueryInfo
  collHashRwBuilder : SortedMap GoString CollHashRwBuilder

def newNsPubRwBuilder : NsPubRwBuilder :=
  ⟨SortedMap.empty, SortedMap.empty, SortedMap.empty, [], SortedMap.empty⟩

def NsPubRwBuilder.getOrCreateCollHashedRwBuilder (builder : NsPubRwBuilder)
    (coll : GoString) : CollHashRwBuilder :=
  (builder.collHashRwBuilder.get coll).getD newCollHashRwBuilder

structure RWSetBuilder where
  pubRwBuilderMap : SortedMap GoString NsPubRwBuilder

namespace RWSetBuilder

variable (b : RWSetBuilder)

def getOrCreateNsPubRwBuilder (ns : GoString) : NsPubRwBuilder :=
  (b.pubRwBuilderMap.get ns).getD newNsPubRwBuilder

def changeNs (ns : GoString) (change : NsPubRwBuilder → NsPubRwBuilder) : RWSetBuilder where
  pubRwBuilderMap := b.pubRwBuilderMap.insert ns (change (b.getOrCreateNsPubRwBuilder ns))

def changeColl (ns coll : GoString)
    (change : CollHashRwBuilder → CollHashRwBuilder) : RWSetBuilder :=
  b.changeNs ns fun builder =>
    { builder with
      collHashRwBuilder := builder.collHashRwBuilder.insert coll
        (change (builder.getOrCreateCollHashedRwBuilder coll)) }

def addToReadSet (ns key : GoString) (version : Option Height) : RWSetBuilder :=
  b.changeNs ns fun builder =>
    { builder with
      readMap := builder.readMap.insert key (newKVRead key version) }

def newKVWrite (key : GoString) (value : Bytes) : KVWrite where
  key := key
  isDelete := value.length == 0
  value := value

def addToWriteSet (ns key : GoString) (value : Bytes) : RWSetBuilder :=
  b.changeNs ns fun builder =>
    { builder with
      writeMap := builder.writeMap.insert key (newKVWrite key value) }

def metadataEntries (m : SortedMap GoString Bytes) : List KVMetadataEntry :=
  m.entries.map fun entry => { name := entry.1, value := entry.2 }

def addToMetadataWriteSet (ns key : GoString)
    (metadata : SortedMap GoString Bytes) : RWSetBuilder :=
  b.changeNs ns fun builder =>
    { builder with
      metadataWriteMap := builder.metadataWriteMap.insert key
        { key := key, entries := metadataEntries metadata } }

def sameRangeQueryKey (first second : RangeQueryInfo) : Bool :=
  first.startKey == second.startKey && first.endKey == second.endKey &&
    first.itrExhausted == second.itrExhausted

def addToRangeQuerySet (ns : GoString) (rqi : RangeQueryInfo) : RWSetBuilder :=
  b.changeNs ns fun builder =>
    if builder.rangeQueries.any (sameRangeQueryKey rqi) then builder
    else { builder with rangeQueries := builder.rangeQueries ++ [rqi] }

variable (computeHash : Bytes → Bytes) (ns coll key : GoString)

def addToHashedReadSet (version : Option Height) : RWSetBuilder :=
  b.changeColl ns coll fun builder =>
    { builder with
      readMap := builder.readMap.insert key
        { keyHash := computeHash key, version := version } }

/-- The hashed half of `newPvtKVWriteAndHash`. -/
def newPvtKVWriteHash (key : GoString) (value : Bytes) : KVWriteHash where
  keyHash := computeHash key
  isDelete := (newKVWrite key value).isDelete
  valueHash := if (newKVWrite key value).isDelete then [] else computeHash value
  isPurge := false

def addToHashedWriteSet (kvWriteHash : KVWriteHash) : RWSetBuilder :=
  b.changeColl ns coll fun builder =>
    { builder with writeMap := builder.writeMap.insert key kvWriteHash }

def addToPvtAndHashedWriteSet (value : Bytes) : RWSetBuilder :=
  b.addToHashedWriteSet ns coll key (newPvtKVWriteHash computeHash key value)

def addToPvtAndHashedWriteSetForPurge : RWSetBuilder :=
  b.addToHashedWriteSet ns coll key
    { newPvtKVWriteHash computeHash key [] with isPurge := true }

def addToHashedMetadataWriteSet (metadata : SortedMap GoString Bytes) : RWSetBuilder :=
  b.changeColl ns coll fun builder =>
    { builder with
      metadataWriteMap := builder.metadataWriteMap.insert key
        { keyHash := computeHash key, entries := metadataEntries metadata } }

end RWSetBuilder

def valuesBySortedKeys {V : Type} (m : SortedMap GoString V) : List V := m.entries.map Prod.snd

def CollHashRwBuilder.build (builder : CollHashRwBuilder)
    (collName : GoString) : CollHashedRwSet where
  collectionName := collName
  hashedRwSet :=
    { hashedReads := valuesBySortedKeys builder.readMap
      hashedWrites := valuesBySortedKeys builder.writeMap
      metadataWrites := valuesBySortedKeys builder.metadataWriteMap }

def NsPubRwBuilder.build (builder : NsPubRwBuilder) (ns : GoString) : NsRwSet where
  nameSpace := ns
  kvRwSet :=
    { reads := valuesBySortedKeys builder.readMap
      rangeQueriesInfo := builder.rangeQueries
      writes := valuesBySortedKeys builder.writeMap
      metadataWrites := valuesBySortedKeys builder.metadataWriteMap }
  collHashedRwSets := builder.collHashRwBuilder.entries.map fun entry => entry.2.build entry.1

def RWSetBuilder.getTxReadWriteSet (b : RWSetBuilder) : TxRwSet where
  nsRwSets := b.pubRwBuilderMap.entries.map fun entry => entry.2.build entry.1

def queryReadsHashingEnabled : Bool := true
def maxDegreeQueryReadsHashing : ℕ := 50

structure ResultsItr where
  ns : GoString
  endKey : GoString
  dbItr : List (GoString × VersionedValue)
  rangeQueryInfo : RangeQueryInfo
  rangeQueryResultsHelper : RangeQueryResultsHelper

def newResultsItr (db : DB) (ns startKey endKey : GoString)
    (enableHashing : Bool) (maxDegree : ℕ) : Outcome ResultsItr := do
  let resultsHelper ← newRangeQueryResultsHelper enableHashing maxDegree
  pure
    { ns := ns
      endKey := endKey
      dbItr := db.getStateRangeScanIterator (.pub ns) startKey endKey
      rangeQueryInfo :=
        { startKey := startKey, endKey := [], itrExhausted := false
          readsInfo := .unset }
      rangeQueryResultsHelper := resultsHelper }

namespace ResultsItr

variable (hashFunc : Bytes → Bytes)

variable (itr : ResultsItr)

def updateRangeQueryInfo : Option (GoString × VersionedValue) → ResultsItr
  | none =>
    { itr with
      rangeQueryInfo :=
        { itr.rangeQueryInfo with itrExhausted := true, endKey := itr.endKey } }
  | some (key, vv) =>
    { itr with
      rangeQueryResultsHelper := itr.rangeQueryResultsHelper.addResult hashFunc
        (newKVRead key (some vv.version))
      rangeQueryInfo := { itr.rangeQueryInfo with endKey := key } }

def next : Option (GoString × VersionedValue) × ResultsItr :=
  let queryResult := itr.dbItr.head?
  (queryResult,
    { itr with dbItr := itr.dbItr.tail }.updateRangeQueryInfo hashFunc queryResult)

/-- The body of the loop of `addRangeQueryInfo`. -/
def finalInfo : RangeQueryInfo :=
  match itr.rangeQueryResultsHelper.done hashFunc with
  | (_, some hash) =>
    { itr.rangeQueryInfo with readsInfo := .readsMerkleHashes hash }
  | ([], none) => itr.rangeQueryInfo
  | (results, none) =>
    { itr.rangeQueryInfo with readsInfo := .rawReads results }

end ResultsItr

/-! ## The simulator -/

/-- What a simulator works on: the committed state, the two hash functions, the
decoding of stored metadata, and the provider of collection configurations,
which looks up keys of the public state. -/
structure SimEnv where
  txid : String
  db : DB
  hashFunc : Bytes → Bytes
  computeHash : Bytes → Bytes
  deserialize : Option Bytes → Outcome (SortedMap GoString Bytes)
  lookups : GoString → List (GoString × GoString)
  allCollectionsConfigPkg : GoString → Outcome (Option (List GoString))

structure TxSimulator where
  rwsetBuilder : RWSetBuilder
  itrs : List ResultsItr
  cache : List (GoString × GoString)
  writePerformed : Bool
  pvtdataQueriesPerformed : Bool

def newTxSimulator : TxSimulator where
  rwsetBuilder := ⟨SortedMap.empty⟩
  itrs := []
  cache := []
  writePerformed := false
  pvtdataQueriesPerformed := false

abbrev SimM (α : Type) := EStateM Failure TxSimulator α

namespace TxSimulator

def liftOutcome {α : Type} : Outcome α → SimM α
  | .ok result => pure result
  | .error failure => throw failure

def build (change : RWSetBuilder → RWSetBuilder) : SimM Unit :=
  modify fun s => { s with rwsetBuilder := change s.rwsetBuilder }

variable (env : SimEnv)

/-! ### Reads of public data -/

def getState (ns key : GoString) : SimM (Option Bytes × Option Bytes) := do
  let versionedValue := env.db.getState (.pub ns) key
  build fun b =>
    b.addToReadSet ns key (versionedValue.map VersionedValue.version)
  pure (versionedValue.map VersionedValue.value, versionedValue.bind VersionedValue.metadata)

def getStateMetadata (ns key : GoString) : SimM (SortedMap GoString Bytes) := do
  let (_, metadata) ← getState env ns key
  liftOutcome (env.deserialize metadata)

def getStateMultipleKeys (ns : GoString) (keys : List GoString) : SimM (List (Option Bytes)) :=
  keys.mapM fun key => do
    let (val, _) ← getState env ns key
    pure val

def getStateRangeScanIterator (ns startKey endKey : GoString) : SimM Unit := do
  let itr ← liftOutcome (newResultsItr env.db ns startKey endKey
    queryReadsHashingEnabled maxDegreeQueryReadsHashing)
  modify fun s => { s with itrs := s.itrs ++ [itr] }

/-- `Next` of the iterator that was opened as the given one. -/
def next (index : ℕ) : SimM (Option (GoString × Bytes)) := do
  let s ← get
  match s.itrs[index]? with
  | none => throw (.panic "index out of range")
  | some itr =>
    let (queryResult, moved) := itr.next env.hashFunc
    modify fun s => { s with itrs := s.itrs.set index moved }
    pure (queryResult.map fun result => (result.1, result.2.value))

/-! ### Collection names -/

section

variable (cache : List (GoString × GoString))

def isPopulatedFor (ns : GoString) : Bool :=
  cache.contains (ns, [])

def populate (ns : GoString) (pkg : List GoString) : List (GoString × GoString) :=
  cache ++ (ns, []) :: pkg.map fun name => (ns, name)

end

def retrieveCollConfigFromStateDB (ns : GoString) : SimM (List GoString) := do
  forM (env.lookups ns) fun lookup => do
    let _ ← getState env lookup.1 lookup.2
  let confPkg ← liftOutcome (env.allCollectionsConfigPkg ns)
  match confPkg with
  | none =>
    throw (.error ("collection config not defined for chaincode [" ++
      printed ns ++ "], pass the collection configuration upon " ++
      "chaincode definition/instantiation"))
  | some pkg => pure pkg

def validateCollName (ns coll : GoString) : SimM Unit := do
  if !isPopulatedFor (← get).cache ns then
    let conf ← retrieveCollConfigFromStateDB env ns
    modify fun s => { s with cache := populate s.cache ns conf }
  if !(← get).cache.contains (ns, coll) then
    throw (.error ("collection [" ++ printed coll ++
      "] not defined in the collection config for chaincode [" ++
      printed ns ++ "]"))

/-! ### Reads of private data -/

def addToHashedReadSet (ns coll key : GoString) (ver : Option Height) : SimM Unit :=
  build fun b => b.addToHashedReadSet env.computeHash ns coll key ver

variable (ns coll key : GoString)

def getPrivateData : SimM (Option Bytes) := do
  validateCollName env ns coll
  let versionedValue := env.db.getState (.pvt ns coll) key
  let ver := versionedValue.map VersionedValue.version
  let hashVersion := env.db.getKeyHashVersion ns coll (env.computeHash key)
  if !areSame hashVersion ver then
    throw (.error ("private data matching public hash version is not " ++
      "available. Public hash version = " ++ Height.text hashVersion ++
      ", Private data version = " ++ Height.text ver))
  addToHashedReadSet env ns coll key ver
  pure (versionedValue.map VersionedValue.value)

/-- `getPrivateDataValueHash`, and `GetPrivateDataHash` without the metadata. -/
def getPrivateDataValueHash : SimM (Option Bytes × Option Bytes) := do
  validateCollName env ns coll
  let versionedValue := env.db.getValueHash ns coll (env.computeHash key)
  addToHashedReadSet env ns coll key (versionedValue.map VersionedValue.version)
  pure (versionedValue.map VersionedValue.value, versionedValue.bind VersionedValue.metadata)

def getPrivateDataHash : SimM (Option Bytes) := do
  let (valueHash, _) ← getPrivateDataValueHash env ns coll key
  pure valueHash

def getPrivateDataMetadata : SimM (SortedMap GoString Bytes) := do
  validateCollName env ns coll
  let (_, metadata) ← getPrivateDataValueHash env ns coll key
  liftOutcome (env.deserialize metadata)

def getPrivateDataMetadataByHash (ns coll : GoString) : SimM Unit := do
  validateCollName env ns coll
  throw (.error ("retrieving private data metadata by keyhash is not " ++
    "supported in simulation. This function is only available for query " ++
    "as yet"))

def getPrivateDataMultipleKeys (ns coll : GoString) (keys : List GoString) :
    SimM (List (Option Bytes)) := do
  validateCollName env ns coll
  keys.mapM fun key => do
    let versionedValue := env.db.getState (.pvt ns coll) key
    addToHashedReadSet env ns coll key (versionedValue.map VersionedValue.version)
    pure (versionedValue.map VersionedValue.value)

def checkBeforePvtdataQueries : SimM Unit := do
  if (← get).writePerformed then
    throw (.error ("txid [" ++ env.txid ++ "]: unsuppored transaction. " ++
      "Queries on pvt data is supported only in a read-only transaction"))
  modify fun s => { s with pvtdataQueriesPerformed := true }

def getPrivateDataRangeScanIterator (ns coll startKey endKey : GoString) :
    SimM (List (GoString × VersionedValue)) := do
  checkBeforePvtdataQueries env
  validateCollName env ns coll
  pure (env.db.getStateRangeScanIterator (.pvt ns coll) startKey endKey)

/-! ### Writes -/

def checkWritePrecondition : SimM Unit := do
  if (← get).pvtdataQueriesPerformed then
    throw (.error ("txid [" ++ env.txid ++ "]: unsuppored transaction. " ++
      "Transaction has already performed queries on pvt data. " ++
      "Writes are not allowed"))
  modify fun s => { s with writePerformed := true }

def checkStateMetadata (ns key : GoString) : SimM Unit := do
  let _ ← liftOutcome (env.deserialize (env.db.getStateMetadata ns key))

def checkPrivateStateMetadata : SimM Unit := do
  let _ ← liftOutcome (env.deserialize
    (env.db.getPrivateDataMetadataByHash ns coll (env.computeHash key)))

def setState (ns key : GoString) (value : Bytes) : SimM Unit := do
  checkWritePrecondition env
  build fun b => b.addToWriteSet ns key value
  checkStateMetadata env ns key

def setStateMetadata (ns key : GoString) (metadata : SortedMap GoString Bytes) : SimM Unit := do
  checkWritePrecondition env
  build fun b => b.addToMetadataWriteSet ns key metadata
  checkStateMetadata env ns key

def writePrivate (change : RWSetBuilder → RWSetBuilder) : SimM Unit := do
  validateCollName env ns coll
  checkWritePrecondition env
  build change
  checkPrivateStateMetadata env ns coll key

def setPrivateData (value : Bytes) : SimM Unit :=
  writePrivate env ns coll key fun b =>
    b.addToPvtAndHashedWriteSet env.computeHash ns coll key value

def purgePrivateData : SimM Unit :=
  writePrivate env ns coll key fun b =>
    b.addToPvtAndHashedWriteSetForPurge env.computeHash ns coll key

def setPrivateDataMetadata (metadata : SortedMap GoString Bytes) : SimM Unit :=
  writePrivate env ns coll key fun b =>
    b.addToHashedMetadataWriteSet env.computeHash ns coll key metadata

/-! ### Results -/

def addRangeQueryInfo (s : TxSimulator) : RWSetBuilder :=
  s.itrs.foldl (fun b itr =>
    b.addToRangeQuerySet itr.ns (itr.finalInfo env.hashFunc)) s.rwsetBuilder

def getTxSimulationResults (s : TxSimulator) : TxRwSet :=
  (addRangeQueryInfo env s).getTxReadWriteSet

end TxSimulator

inductive SimOp where
  | getState (ns key : GoString)
  | getStateMetadata (ns key : GoString)
  | getStateMultipleKeys (ns : GoString) (keys : List GoString)
  | getStateRangeScanIterator (ns startKey endKey : GoString)
  | next (index : ℕ)
  | getPrivateData (ns coll key : GoString)
  | getPrivateDataHash (ns coll key : GoString)
  | getPrivateDataMetadata (ns coll key : GoString)
  | getPrivateDataMetadataByHash (ns coll keyhash : GoString)
  | getPrivateDataMultipleKeys (ns coll : GoString) (keys : List GoString)
  | getPrivateDataRangeScanIterator (ns coll startKey endKey : GoString)
  | setState (ns key : GoString) (value : Bytes)
  | deleteState (ns key : GoString)
  | setStateMultipleKeys (ns : GoString) (kvs : List (GoString × Bytes))
  | setStateMetadata (ns key : GoString) (metadata : SortedMap GoString Bytes)
  | deleteStateMetadata (ns key : GoString)
  | setPrivateData (ns coll key : GoString) (value : Bytes)
  | deletePrivateData (ns coll key : GoString)
  | setPrivateDataMultipleKeys (ns coll : GoString) (kvs : List (GoString × Bytes))
  | purgePrivateData (ns coll key : GoString)
  | setPrivateDataMetadata (ns coll key : GoString) (metadata : SortedMap GoString Bytes)
  | deletePrivateDataMetadata (ns coll key : GoString)

namespace TxSimulator

/-- An operation of the simulator without the result it returns. -/
def call (env : SimEnv) : SimOp → SimM Unit
  | .getState ns key => discard (getState env ns key)
  | .getStateMetadata ns key => discard (getStateMetadata env ns key)
  | .getStateMultipleKeys ns keys => discard (getStateMultipleKeys env ns keys)
  | .getStateRangeScanIterator ns startKey endKey =>
    getStateRangeScanIterator env ns startKey endKey
  | .next index => discard (next env index)
  | .getPrivateData ns coll key => discard (getPrivateData env ns coll key)
  | .getPrivateDataHash ns coll key => discard (getPrivateDataHash env ns coll key)
  | .getPrivateDataMetadata ns coll key => discard (getPrivateDataMetadata env ns coll key)
  | .getPrivateDataMetadataByHash ns coll _ => getPrivateDataMetadataByHash env ns coll
  | .getPrivateDataMultipleKeys ns coll keys =>
    discard (getPrivateDataMultipleKeys env ns coll keys)
  | .getPrivateDataRangeScanIterator ns coll startKey endKey =>
    discard (getPrivateDataRangeScanIterator env ns coll startKey endKey)
  | .setState ns key value => setState env ns key value
  | .deleteState ns key => setState env ns key []
  | .setStateMultipleKeys ns kvs => forM kvs fun kv => setState env ns kv.1 kv.2
  | .setStateMetadata ns key metadata => setStateMetadata env ns key metadata
  | .deleteStateMetadata ns key => setStateMetadata env ns key SortedMap.empty
  | .setPrivateData ns coll key value => setPrivateData env ns coll key value
  | .deletePrivateData ns coll key => setPrivateData env ns coll key []
  | .setPrivateDataMultipleKeys ns coll kvs =>
    forM kvs fun kv => setPrivateData env ns coll kv.1 kv.2
  | .purgePrivateData ns coll key => purgePrivateData env ns coll key
  | .setPrivateDataMetadata ns coll key metadata => setPrivateDataMetadata env ns coll key metadata
  | .deletePrivateDataMetadata ns coll key => setPrivateDataMetadata env ns coll key SortedMap.empty

def simulate (env : SimEnv) (ops : List SimOp) : TxSimulator :=
  ops.foldl (fun s op => StateCall.after (call env op) s) newTxSimulator

end TxSimulator

end FabricSequencer
