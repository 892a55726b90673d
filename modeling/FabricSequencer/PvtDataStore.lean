import FabricSequencer.WriteSetApplication
import Mathlib.Data.Finset.Basic

/-!
# The store of private write sets

`pvtdatastorage.Store` keeps the private write sets of a channel in families of
keys: the data of a transaction and collection, an index from the hash of a
key to the writes of it, markers for keys to be purged, the entries that expire
at a block, and the transactions of a block whose data is missing, prioritized
or deprioritized for the collections of which the peer is a member, ineligible
for the others.

The keys are typed and ordered as their encodings are, since namespaces and
collections do not contain the separator.  The hashes of a snapshot's data and
the list of blocks that older versions kept are left out.  The database itself
does not fail.
-/

namespace FabricSequencer.Pvtdatastorage

structure NsCollBlk where
  ns : GoString
  coll : GoString
  blkNum : ℕ

namespace NsCollBlk

def toTriple (key : NsCollBlk) : GoString ×ₗ (GoString ×ₗ ℕ) :=
  toLex (key.ns, toLex (key.coll, key.blkNum))

theorem toTriple_injective : Function.Injective toTriple := by
  rintro ⟨⟩ ⟨⟩ heq
  cases heq
  rfl

instance : LinearOrder NsCollBlk := LinearOrder.lift' toTriple toTriple_injective

end NsCollBlk

/-- `dataKey`.  A scan visits the transactions of a block in order. -/
structure DataKey where
  ns : GoString
  coll : GoString
  blkNum : ℕ
  txNum : ℕ

namespace DataKey

variable (key : DataKey)

def toTuple : ℕ ×ₗ (ℕ ×ₗ (GoString ×ₗ GoString)) :=
  toLex (key.blkNum, toLex (key.txNum, toLex (key.ns, key.coll)))

theorem toTuple_injective : Function.Injective toTuple := by
  rintro ⟨⟩ ⟨⟩ heq
  cases heq
  rfl

instance : LinearOrder DataKey := LinearOrder.lift' toTuple toTuple_injective

def nsCollBlk : NsCollBlk := ⟨key.ns, key.coll, key.blkNum⟩

def height : Height := ⟨key.blkNum, key.txNum⟩

end DataKey

/-- A key in a collection by its hash: `purgeMarkerKey`. -/
abbrev PurgeMarkerKey := CompositeKey

structure HashedIndexKey where
  ns : GoString
  coll : GoString
  pvtkeyHash : Bytes
  blkNum : ℕ
  txNum : ℕ

namespace HashedIndexKey

variable (key : HashedIndexKey)

def toTuple : CompositeKey ×ₗ (ℕ ×ₗ ℕ) :=
  toLex (⟨key.ns, key.coll, key.pvtkeyHash⟩, toLex (key.blkNum, key.txNum))

theorem toTuple_injective : Function.Injective toTuple := by
  rintro ⟨⟩ ⟨⟩ heq
  cases heq
  rfl

instance : LinearOrder HashedIndexKey := LinearOrder.lift' toTuple toTuple_injective

def markerKey : PurgeMarkerKey := ⟨key.ns, key.coll, key.pvtkeyHash⟩

def height : Height := ⟨key.blkNum, key.txNum⟩

/-- `deriveDataKeyFromEncodedHashedIndexKey`. -/
def dataKey : DataKey := ⟨key.ns, key.coll, key.blkNum, key.txNum⟩

end HashedIndexKey

structure ExpiryKey where
  expiringBlk : ℕ
  committingBlk : ℕ

namespace ExpiryKey

def toPair (key : ExpiryKey) : ℕ ×ₗ ℕ := toLex (key.expiringBlk, key.committingBlk)

theorem toPair_injective : Function.Injective toPair := by
  rintro ⟨⟩ ⟨⟩ heq
  cases heq
  rfl

instance : LinearOrder ExpiryKey := LinearOrder.lift' toPair toPair_injective

end ExpiryKey

structure CollPvtRwSet where
  collectionName : GoString
  kvRwSet : KVRWSet
deriving DecidableEq

def CollPvtRwSet.filterWrites (v : CollPvtRwSet) (keep : KVWrite → Bool) : CollPvtRwSet :=
  { v with kvRwSet := { v.kvRwSet with
      writes := v.kvRwSet.writes.filter keep } }

structure NsPvtReadWriteSet where
  nameSpace : GoString
  collectionPvtRwset : List CollPvtRwSet
deriving DecidableEq

structure TxPvtData where
  seqInBlock : ℕ
  nsPvtRwset : List NsPvtReadWriteSet
deriving DecidableEq

structure MissingPvtData where
  nameSpace : GoString
  collection : GoString
  isEligible : Bool

abbrev TxMissingPvtData := SortedMap ℕ (List MissingPvtData)

structure PurgeMarker where
  ns : GoString
  coll : GoString
  pvtkeyHash : Bytes
  txNum : ℕ

structure NamespaceExpiryData where
  presentData : SortedMap GoString (List ℕ)
  missingData : SortedMap GoString Bool

/-- `ExpiryData`: for each namespace what expires. -/
abbrev ExpiryData := SortedMap GoString NamespaceExpiryData

namespace ExpiryData

variable (e : ExpiryData)

def getOrCreateCollections (ns : GoString) : NamespaceExpiryData :=
  (e.get ns).getD
    { presentData := SortedMap.empty, missingData := SortedMap.empty }

def addPresentData (ns coll : GoString) (txNum : ℕ) : ExpiryData :=
  let nsExpiryData := e.getOrCreateCollections ns
  let txNums := (nsExpiryData.presentData.get coll).getD []
  e.insert ns { nsExpiryData with
    presentData := nsExpiryData.presentData.insert coll (txNums ++ [txNum]) }

def addMissingData (ns coll : GoString) : ExpiryData :=
  let nsExpiryData := e.getOrCreateCollections ns
  e.insert ns { nsExpiryData with
    missingData := nsExpiryData.missingData.insert coll true }

end ExpiryData

/-- `pvtdatapolicy.BTLPolicy`, which fails for an unknown collection. -/
structure BTLPolicy where
  getBTL : GoString → GoString → Except String ℕ

def maxUint64 : ℕ := 2 ^ 64 - 1

def computeExpiringBlock (committingBlock btl : ℕ) : ℕ :=
  let expiryBlk := uint64 (committingBlock + btl + 1)
  if expiryBlk ≤ committingBlock then maxUint64 else expiryBlk

def BTLPolicy.getExpiringBlock (btlPolicy : BTLPolicy) (ns coll : GoString)
    (committingBlock : ℕ) : Except String ℕ := do
  let btl ← btlPolicy.getBTL ns coll
  pure (computeExpiringBlock committingBlock btl)

def neverExpires (expiringBlkNum : ℕ) : Bool := expiringBlkNum == maxUint64

def isExpired (btl : BTLPolicy) (ns coll : GoString) (blkNum latestBlkNum : ℕ) :
    Except String Bool := do
  let expiringBlk ← btl.getExpiringBlock ns coll blkNum
  pure (decide (latestBlkNum ≥ expiringBlk))

abbrev MissingData := SortedMap NsCollBlk (Finset ℕ)

structure StoreDB where
  lastCommittedBlock : Option ℕ
  data : SortedMap DataKey CollPvtRwSet
  hashedIndex : SortedMap HashedIndexKey GoString
  purgeMarker : SortedMap PurgeMarkerKey Height
  purgeMarkerColl : SortedMap (GoString ×ₗ GoString) Height
  purgeMarkerForRecon : SortedMap PurgeMarkerKey Height
  expiry : SortedMap ExpiryKey ExpiryData
  elgPrioMissingData : MissingData
  elgDeprioMissingData : MissingData
  inelgMissingData : MissingData
  collElg : SortedMap ℕ (SortedMap GoString (List GoString))

def emptyStore : StoreDB where
  lastCommittedBlock := none
  data := SortedMap.empty
  hashedIndex := SortedMap.empty
  purgeMarker := SortedMap.empty
  purgeMarkerColl := SortedMap.empty
  purgeMarkerForRecon := SortedMap.empty
  expiry := SortedMap.empty
  elgPrioMissingData := SortedMap.empty
  elgDeprioMissingData := SortedMap.empty
  inelgMissingData := SortedMap.empty
  collElg := SortedMap.empty

variable (db : StoreDB)

def StoreDB.nextBlockNum : ℕ :=
  match db.lastCommittedBlock with
  | none => 0
  | some lastCommittedBlock => lastCommittedBlock + 1

/-- `util.ComputeStringHash`, a parameter of the store. -/
abbrev KeyHash := GoString → Bytes

abbrev DataEntry := DataKey × CollPvtRwSet

abbrev HashedIndexEntry := HashedIndexKey × GoString

def prepareDataEntries (blockNum : ℕ) (pvtData : List TxPvtData) : List DataEntry :=
  pvtData.flatMap fun txPvtdata =>
    txPvtdata.nsPvtRwset.flatMap fun nsPvtdata =>
      nsPvtdata.collectionPvtRwset.map fun collPvtdata =>
        (⟨nsPvtdata.nameSpace, collPvtdata.collectionName, blockNum,
          txPvtdata.seqInBlock⟩, collPvtdata)

variable (hash : KeyHash)

def DataKey.hashedIndexKey (key : DataKey) (w : KVWrite) : HashedIndexKey :=
  ⟨key.ns, key.coll, hash w.key, key.blkNum, key.txNum⟩

def prepareHashedIndexEntries (dataEntries : List DataEntry) : List HashedIndexEntry :=
  dataEntries.flatMap fun d =>
    d.2.kvRwSet.writes.map fun w => (d.1.hashedIndexKey hash w, w.key)

def setMissing (entries : MissingData) (key : NsCollBlk) (txNum : ℕ) : MissingData :=
  entries.insert key (insert txNum ((entries.get key).getD ∅))

/-- One turn of the loop of `prepareMissingDataEntries`. -/
def addMissingEntry (committingBlk txNum : ℕ)
    (entries : MissingData × MissingData) (nsColl : MissingPvtData) : MissingData × MissingData :=
  let key : NsCollBlk := ⟨nsColl.nameSpace, nsColl.collection, committingBlk⟩
  if nsColl.isEligible then (setMissing entries.1 key txNum, entries.2)
  else (entries.1, setMissing entries.2 key txNum)

def prepareMissingDataEntries (committingBlk : ℕ)
    (missingPvtData : TxMissingPvtData) : MissingData × MissingData :=
  missingPvtData.entries.foldl (fun entries tx =>
    tx.2.foldl (addMissingEntry committingBlk tx.1) entries)
    (SortedMap.empty, SortedMap.empty)

abbrev ExpiryByBlock := SortedMap ℕ ExpiryData

def getOrCreateExpiryData (mapByExpiringBlk : ExpiryByBlock) (expiringBlk : ℕ) : ExpiryData :=
  (mapByExpiringBlk.get expiringBlk).getD SortedMap.empty

def prepareExpiryEntriesForPresentData (btlPolicy : BTLPolicy)
    (mapByExpiringBlk : ExpiryByBlock) (dataKey : DataKey) :
    Except String ExpiryByBlock := do
  let expiringBlk ← btlPolicy.getExpiringBlock dataKey.ns dataKey.coll dataKey.blkNum
  if neverExpires expiringBlk then pure mapByExpiringBlk
  else
    let expiryData := getOrCreateExpiryData mapByExpiringBlk expiringBlk
    pure (mapByExpiringBlk.insert expiringBlk
      (expiryData.addPresentData dataKey.ns dataKey.coll dataKey.txNum))

def prepareExpiryEntriesForMissingData (btlPolicy : BTLPolicy)
    (mapByExpiringBlk : ExpiryByBlock) (missingKey : NsCollBlk) :
    Except String ExpiryByBlock := do
  let expiringBlk ← btlPolicy.getExpiringBlock missingKey.ns missingKey.coll missingKey.blkNum
  if neverExpires expiringBlk then pure mapByExpiringBlk
  else
    let expiryData := getOrCreateExpiryData mapByExpiringBlk expiringBlk
    pure (mapByExpiringBlk.insert expiringBlk
      (expiryData.addMissingData missingKey.ns missingKey.coll))

def prepareExpiryEntries (committingBlk : ℕ) (dataEntries : List DataEntry)
    (elgMissing inelgMissing : MissingData) (btlPolicy : BTLPolicy) :
    Except String (List (ExpiryKey × ExpiryData)) := do
  let present ← (dataEntries.map Prod.fst).foldlM
    (prepareExpiryEntriesForPresentData btlPolicy) SortedMap.empty
  let eligible ← elgMissing.keys.foldlM (prepareExpiryEntriesForMissingData btlPolicy) present
  let all ← inelgMissing.keys.foldlM (prepareExpiryEntriesForMissingData btlPolicy) eligible
  pure (all.entries.map fun entry => (⟨entry.1, committingBlk⟩, entry.2))

def PurgeMarker.key (m : PurgeMarker) : PurgeMarkerKey := ⟨m.ns, m.coll, m.pvtkeyHash⟩

/-- One turn of the loop of `preparePurgerMarkerEntries` for the marker of the
collection.  What is visited is the version of the entry added last. -/
def addCollMarker (blkNum : ℕ) (entries : SortedMap (GoString ×ₗ GoString) Height)
    (m : PurgeMarker) : SortedMap (GoString ×ₗ GoString) Height :=
  let version : Height := ⟨blkNum, m.txNum⟩
  match entries.get (toLex (m.ns, m.coll)) with
  | none => entries.insert (toLex (m.ns, m.coll)) version
  | some visitedVersion =>
    if visitedVersion.compare version > 0 then entries
    else entries.insert (toLex (m.ns, m.coll)) version

def preparePurgerMarkerEntries (blkNum : ℕ) (purgeMarkers : List PurgeMarker) :
    List (PurgeMarkerKey × Height) × SortedMap (GoString ×ₗ GoString) Height :=
  (purgeMarkers.map fun m => (m.key, ⟨blkNum, m.txNum⟩),
    purgeMarkers.foldl (addCollMarker blkNum) SortedMap.empty)

structure StoreEntries where
  dataEntries : List DataEntry
  hashedIndexEntries : List HashedIndexEntry
  purgeMarkerEntries : List (PurgeMarkerKey × Height)
  purgeMarkerCollEntries : SortedMap (GoString ×ₗ GoString) Height
  expiryEntries : List (ExpiryKey × ExpiryData)
  elgMissingDataEntries : MissingData
  inelgMissingDataEntries : MissingData

section

variable (btlPolicy : BTLPolicy)

def prepareStoreEntries (blockNum : ℕ) (pvtData : List TxPvtData)
    (missingPvtData : TxMissingPvtData) (purgeMarkers : List PurgeMarker) :
    Except String StoreEntries := do
  let dataEntries := prepareDataEntries blockNum pvtData
  let hashedIndexEntries := prepareHashedIndexEntries hash dataEntries
  let (elgMissing, inelgMissing) := prepareMissingDataEntries blockNum missingPvtData
  let expiryEntries ← prepareExpiryEntries blockNum dataEntries elgMissing inelgMissing btlPolicy
  let (markers, collMarkers) := preparePurgerMarkerEntries blockNum purgeMarkers
  pure { dataEntries := dataEntries, hashedIndexEntries := hashedIndexEntries
         purgeMarkerEntries := markers
         purgeMarkerCollEntries := collMarkers
         expiryEntries := expiryEntries
         elgMissingDataEntries := elgMissing
         inelgMissingDataEntries := inelgMissing }

structure CommitInput where
  blockNum : ℕ
  pvtData : List TxPvtData
  missingPvtData : TxMissingPvtData
  purgeMarkers : List PurgeMarker

def StoreDB.putEntries (blockNum : ℕ) (entries : StoreEntries) : StoreDB :=
  { db with
    lastCommittedBlock := some blockNum
    data := db.data.insertAll entries.dataEntries
    hashedIndex := db.hashedIndex.insertAll entries.hashedIndexEntries
    purgeMarker := db.purgeMarker.insertAll entries.purgeMarkerEntries
    purgeMarkerForRecon := db.purgeMarkerForRecon.insertAll entries.purgeMarkerEntries
    purgeMarkerColl := db.purgeMarkerColl.insertAll entries.purgeMarkerCollEntries.entries
    expiry := db.expiry.insertAll entries.expiryEntries
    elgPrioMissingData := db.elgPrioMissingData.insertAll entries.elgMissingDataEntries.entries
    inelgMissingData := db.inelgMissingData.insertAll entries.inelgMissingDataEntries.entries }

def StoreDB.commit (db : StoreDB) (input : CommitInput) : Except String StoreDB :=
  let expectedBlockNum := db.nextBlockNum
  if expectedBlockNum ≠ input.blockNum then
    .error ("expected block number=" ++ toString expectedBlockNum ++
      ", received block number=" ++ toString input.blockNum)
  else do
    let entries ← prepareStoreEntries hash btlPolicy input.blockNum
      input.pvtData input.missingPvtData input.purgeMarkers
    pure (db.putEntries input.blockNum entries)

def TxPvtData.add (a : TxPvtData) (ns : GoString) (collPvtWset : CollPvtRwSet) : TxPvtData :=
  match a.nsPvtRwset.getLast? with
  | none =>
    { a with nsPvtRwset := [{ nameSpace := ns, collectionPvtRwset := [collPvtWset] }] }
  | some currentNsWSet =>
    if currentNsWSet.nameSpace ≠ ns then
      { a with nsPvtRwset := a.nsPvtRwset ++
          [{ nameSpace := ns, collectionPvtRwset := [collPvtWset] }] }
    else
      { a with nsPvtRwset := a.nsPvtRwset.dropLast ++
          [{ currentNsWSet with collectionPvtRwset :=
              currentNsWSet.collectionPvtRwset ++ [collPvtWset] }] }

def assemble (blockPvtdata : List TxPvtData) (dataKey : DataKey)
    (dataValue : CollPvtRwSet) : List TxPvtData :=
  let started : TxPvtData := { seqInBlock := dataKey.txNum, nsPvtRwset := [] }
  match blockPvtdata.getLast? with
  | none => [started.add dataKey.ns dataValue]
  | some current =>
    if dataKey.txNum ≠ current.seqInBlock then
      blockPvtdata ++ [started.add dataKey.ns dataValue]
    else blockPvtdata.dropLast ++ [current.add dataKey.ns dataValue]

def StoreDB.keyPotentiallyPurged (k : DataKey) : Bool :=
  match db.purgeMarkerColl.get (toLex (k.ns, k.coll)) with
  | none => false
  | some purgeKeyCollMarkerHt => k.height.compare purgeKeyCollMarkerHt ≤ 0

def StoreDB.filterIn (db : StoreDB) (k : DataKey) (w : KVWrite) : Bool :=
  match db.purgeMarker.get ⟨k.ns, k.coll, hash w.key⟩ with
  | none => true
  | some purgeMarkerHt => k.height.compare purgeMarkerHt > 0

def StoreDB.removePurgedDataFromCollPvtRWset (db : StoreDB)
    (k : DataKey) (v : CollPvtRwSet) : CollPvtRwSet :=
  if db.keyPotentiallyPurged k then v.filterWrites (db.filterIn hash k)
  else v

/-- `ledger.PvtNsCollFilter`; nil lets everything pass. -/
abbrev PvtNsCollFilter := Option (GoString → GoString → Bool)

def passesFilter (dataKey : DataKey) (filter : PvtNsCollFilter) : Bool :=
  match filter with
  | none => true
  | some has => has dataKey.ns dataKey.coll

/-- A call of `GetPvtDataByBlockNum` whose iterator is open.  The iterator is
a snapshot; the markers are read when a write set is visited. -/
structure BlockRead where
  lastCommittedBlock : ℕ
  filter : PvtNsCollFilter
  itr : List DataEntry
  blockPvtdata : List TxPvtData

def StoreDB.beginRead (blockNum : ℕ) (filter : PvtNsCollFilter) : Except String BlockRead :=
  match db.lastCommittedBlock with
  | none => .error "the store is empty"
  | some lastCommittedBlock =>
    if blockNum > lastCommittedBlock then
      .error ("last committed block number [" ++ toString lastCommittedBlock ++
        "] smaller than the requested block number [" ++
        toString blockNum ++ "]")
    else
      .ok { lastCommittedBlock := lastCommittedBlock, filter := filter
            itr := (db.data.restrict fun k => k.blkNum = blockNum).entries
            blockPvtdata := [] }

variable (db : StoreDB)

/-- One turn of the loop of `GetPvtDataByBlockNum`. -/
def StoreDB.visit (lastCommittedBlock : ℕ) (filter : PvtNsCollFilter)
    (blockPvtdata : List TxPvtData) (entry : DataEntry) : Except String (List TxPvtData) := do
  let expired ← isExpired btlPolicy entry.1.ns entry.1.coll entry.1.blkNum lastCommittedBlock
  if expired || !passesFilter entry.1 filter then pure blockPvtdata
  else pure (assemble blockPvtdata entry.1
    (db.removePurgedDataFromCollPvtRWset hash entry.1 entry.2))

def StoreDB.finishRead (read : BlockRead) : Except String (List TxPvtData) :=
  read.itr.foldlM (db.visit hash btlPolicy read.lastCommittedBlock read.filter) read.blockPvtdata

def StoreDB.getPvtDataByBlockNum (blockNum : ℕ) (filter : PvtNsCollFilter) :
    Except String (List TxPvtData) := do
  let read ← db.beginRead blockNum filter
  db.finishRead hash btlPolicy read

end

/-- `deriveKeys`, the data of a transaction and collection. -/
def deriveDataKeys (key : ExpiryKey) (value : ExpiryData) : List DataKey :=
  value.entries.flatMap fun nsData =>
    nsData.2.presentData.entries.flatMap fun coll =>
      coll.2.map fun txNum => ⟨nsData.1, coll.1, key.committingBlk, txNum⟩

/-- `deriveKeys`, the missing data of a collection. -/
def deriveMissingDataKeys (key : ExpiryKey) (value : ExpiryData) : List NsCollBlk :=
  value.entries.flatMap fun nsData =>
    nsData.2.missingData.entries.map fun coll =>
      ⟨nsData.1, coll.1, key.committingBlk⟩

def StoreDB.retrieveDataEntries (dataKeys : List DataKey) : List DataEntry :=
  dataKeys.filterMap fun k => (db.data.get k).map fun v => (k, v)

/-- One turn of the loop of `purgeExpiredData`. -/
def StoreDB.purgeExpiryEntry (db : StoreDB) (entry : ExpiryKey × ExpiryData) : StoreDB :=
  let dataKeys := deriveDataKeys entry.1 entry.2
  let missingDataKeys := deriveMissingDataKeys entry.1 entry.2
  let hashedIndexEntries := prepareHashedIndexEntries hash (db.retrieveDataEntries dataKeys)
  { db with
    expiry := db.expiry.erase entry.1
    data := db.data.eraseAll dataKeys
    hashedIndex := db.hashedIndex.eraseAll (hashedIndexEntries.map Prod.fst)
    elgPrioMissingData := db.elgPrioMissingData.eraseAll missingDataKeys
    elgDeprioMissingData := db.elgDeprioMissingData.eraseAll missingDataKeys
    inelgMissingData := db.inelgMissingData.eraseAll missingDataKeys }

def StoreDB.retrieveExpiryEntries (maxBlkNum : ℕ) : List (ExpiryKey × ExpiryData) :=
  (db.expiry.restrict fun key => key.expiringBlk ≤ maxBlkNum).entries

/-- `purgeUpdatesProcessor`: the trimmed write sets and the batch.  With a
marker that is to be deleted stands the height it had when it was read. -/
structure PurgeUpdatesProcessor where
  pvtWrites : SortedMap DataKey CollPvtRwSet
  deletedIndex : List HashedIndexKey
  deletedMarkers : List (PurgeMarkerKey × Height)

def newPurgeUpdatesProcessor : PurgeUpdatesProcessor where
  pvtWrites := SortedMap.empty
  deletedIndex := []
  deletedMarkers := []

def emptyCollPvtRwSet : CollPvtRwSet where
  collectionName := []
  kvRwSet :=
    { reads := [], rangeQueriesInfo := [], writes := [], metadataWrites := [] }

def CollPvtRwSet.removeWrite (collWS : CollPvtRwSet) (key : GoString) : CollPvtRwSet :=
  { collWS with kvRwSet := { collWS.kvRwSet with
      writes := collWS.kvRwSet.writes.eraseP fun w => w.key == key } }

variable (p : PurgeUpdatesProcessor)

/-- `process` up to the test of the size. -/
def PurgeUpdatesProcessor.process (db : StoreDB)
    (entry : HashedIndexEntry) : PurgeUpdatesProcessor :=
  let dataKey := entry.1.dataKey
  let collWS := (p.pvtWrites.get dataKey).getD ((db.data.get dataKey).getD emptyCollPvtRwSet)
  { p with
    pvtWrites := p.pvtWrites.insert dataKey (collWS.removeWrite entry.2)
    deletedIndex := entry.1 :: p.deletedIndex }

def PurgeUpdatesProcessor.addProcessedPurgeMarkerForDeletion (marker : PurgeMarkerKey × Height) :
    PurgeUpdatesProcessor :=
  { p with deletedMarkers := marker :: p.deletedMarkers }

def StoreDB.commitPendingChanges : StoreDB :=
  { db with
    data := db.data.insertAll p.pvtWrites.entries
    hashedIndex := db.hashedIndex.eraseAll p.deletedIndex
    purgeMarker := db.purgeMarker.eraseAll (p.deletedMarkers.map Prod.fst) }

/-- The range of `driveHashedIndexKeyRangeFromPurgeMarker`. -/
def StoreDB.hashedIndexUpTo (marker : PurgeMarkerKey × Height) : List HashedIndexEntry :=
  (db.hashedIndex.restrict fun key => decide (key.markerKey = marker.1) &&
    decide (key.height.compare marker.2 ≤ 0)).entries

/-- Where the goroutine of the purger stands: between two entries that
expired, or in `deleteDataMarkedForPurge` with its two iterators. -/
inductive Purger where
  | expiring (rest : List (ExpiryKey × ExpiryData))
  | marked (markers : List (PurgeMarkerKey × Height)) (current : Option (PurgeMarkerKey × Height))
      (index : List HashedIndexEntry) (p : PurgeUpdatesProcessor)

/-- One step of the goroutine.  `exceeds` tells whether the size of the pending
changes is over the limit.  After the last step the goroutine is gone. -/
def Purger.step (db : StoreDB) (exceeds : Bool) : Purger → StoreDB × Option Purger
  | .expiring (entry :: rest) => (db.purgeExpiryEntry hash entry, some (.expiring rest))
  | .expiring [] => (db, some (.marked db.purgeMarker.entries none [] newPurgeUpdatesProcessor))
  | .marked markers current (entry :: index) p =>
    let next := p.process db entry
    if exceeds then
      (db.commitPendingChanges next, some (.marked markers current index newPurgeUpdatesProcessor))
    else (db, some (.marked markers current index next))
  | .marked markers (some marker) [] p =>
    (db, some (.marked markers none [] (p.addProcessedPurgeMarkerForDeletion marker)))
  | .marked (marker :: markers) none [] p =>
    (db, some (.marked markers (some marker) (db.hashedIndexUpTo marker) p))
  | .marked [] none [] p => (db.commitPendingChanges p, none)

end FabricSequencer.Pvtdatastorage
