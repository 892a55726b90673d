import FabricSequencer.PvtUpdateBatch

/-!
# The purge manager of the state database

`pvtstatepurgemgmt.PurgeMgr` removes private data and its hashes from the state
once the collection's time to live has passed.  A schedule lists for each
committing and expiring block the keys, or only their hashes, that the block
wrote.  Before a block is committed the entries that expire with it are
compared with the state, which gives the working set; the keys in it that the
block does not write are deleted with the block.  Private data of an old block
that a peer gets later is added to the schedule and to the working set.
-/

namespace FabricSequencer.Pvtstatepurgemgmt

open Pvtdatastorage (BTLPolicy neverExpires maxUint64)

structure ExpiryInfoKey where
  committingBlk : ℕ
  expiryBlk : ℕ

namespace ExpiryInfoKey

def toPair (key : ExpiryInfoKey) : ℕ ×ₗ ℕ := toLex (key.expiryBlk, key.committingBlk)

theorem toPair_injective : Function.Injective toPair := by
  rintro ⟨⟩ ⟨⟩ heq
  cases heq
  rfl

instance : LinearOrder ExpiryInfoKey := LinearOrder.lift' toPair toPair_injective

end ExpiryInfoKey

structure KeyAndHash where
  key : GoString
  hash : Bytes

/-- `PvtdataKeys`: the keys of each namespace and collection. -/
abbrev PvtdataKeys := SortedMap GoString (SortedMap GoString (List KeyAndHash))

namespace PvtdataKeys

def add (pvtdataKeys : PvtdataKeys) (ns coll key : GoString) (keyhash : Bytes) : PvtdataKeys :=
  let colls := (pvtdataKeys.get ns).getD SortedMap.empty
  let keysAndHashes := (colls.get coll).getD []
  pvtdataKeys.insert ns (colls.insert coll (keysAndHashes ++ [⟨key, keyhash⟩]))

def list (pvtdataKeys : PvtdataKeys) : List (CompositeKey × GoString) :=
  pvtdataKeys.entries.flatMap fun ns =>
    ns.2.entries.flatMap fun coll =>
      coll.2.map fun keyAndHash =>
        (⟨ns.1, coll.1, keyAndHash.hash⟩, keyAndHash.key)

def addAll (pvtdataKeys toAdd : PvtdataKeys) : PvtdataKeys :=
  toAdd.list.foldl (fun keys entry =>
    add keys entry.1.ns entry.1.coll entry.2 entry.1.key) pvtdataKeys

end PvtdataKeys

/-- `expiryKeeper`, and the entries that a builder collects. -/
abbrev ExpirySchedule := SortedMap ExpiryInfoKey PvtdataKeys

def ExpirySchedule.add (btlPolicy : BTLPolicy) (scheduleEntries : ExpirySchedule)
    (ns coll key : GoString) (keyHash : Bytes) (versionedValue : Update) :
    Except String ExpirySchedule := do
  let committingBlk := versionedValue.version.blockNum
  let expiryBlk ← btlPolicy.getExpiringBlock ns coll committingBlk
  if versionedValue.value.isNone || neverExpires expiryBlk then
    pure scheduleEntries
  else
    let expinfoKey : ExpiryInfoKey := ⟨committingBlk, expiryBlk⟩
    let pvtdataKeys := (scheduleEntries.get expinfoKey).getD SortedMap.empty
    pure (scheduleEntries.insert expinfoKey (pvtdataKeys.add ns coll key keyHash))

variable (computeHash : Bytes → Bytes)

def hashedKey (ck : PvtdataCompositeKey) : CompositeKey :=
  ⟨ck.ns, ck.coll, computeHash ck.key⟩

variable (btlPolicy : BTLPolicy)

/-- One turn of the first loop of `buildExpirySchedule`.  The hashed key is
done with, whether or not the private update is a delete. -/
def addPvtUpdate (built : ExpirySchedule × SortedMap CompositeKey Update)
    (pvtUpdate : PvtdataCompositeKey × Update) :
    Except String (ExpirySchedule × SortedMap CompositeKey Update) := do
  let (ck, vv) := pvtUpdate
  let keyHash := computeHash ck.key
  let schedule ← built.1.add btlPolicy ck.ns ck.coll ck.key keyHash vv
  pure (schedule, built.2.erase (hashedKey computeHash ck))

/-- One turn of the second loop of `buildExpirySchedule`. -/
def addHashedUpdate (schedule : ExpirySchedule)
    (hashedUpdate : CompositeKey × Update) : Except String ExpirySchedule :=
  schedule.add btlPolicy hashedUpdate.1.ns hashedUpdate.1.coll [] hashedUpdate.1.key hashedUpdate.2

def buildExpirySchedule (pvtUpdates : PvtUpdateBatch) (hashedUpdates : HashedUpdateBatch) :
    Except String ExpirySchedule := do
  let (schedule, hashedUpdateKeys) ←
    pvtUpdates.toCompositeKeyMap.entries.foldlM (addPvtUpdate computeHash btlPolicy)
      (SortedMap.empty, hashedUpdates.toCompositeKeyMap)
  hashedUpdateKeys.entries.foldlM (addHashedUpdate btlPolicy) schedule

/-! ## The working set -/

structure KeyAndVersion where
  key : GoString
  committingBlock : ℕ
  purgeKeyOnly : Bool

abbrev ExpiryInfoMap := SortedMap CompositeKey KeyAndVersion

structure WorkingSet where
  toPurge : ExpiryInfoMap
  toClearFromSchedule : List ExpiryInfoKey
  expiringBlk : ℕ

structure PurgeMgr where
  expKeeper : ExpirySchedule
  workingset : Option WorkingSet

def retrieve (expKeeper : ExpirySchedule) (expiringAtBlkNum : ℕ) :
    List (ExpiryInfoKey × PvtdataKeys) :=
  expKeeper.entries.filter fun entry => entry.1.expiryBlk == expiringAtBlkNum

def transformToExpiryInfoMap (expiryInfo : List (ExpiryInfoKey × PvtdataKeys)) : ExpiryInfoMap :=
  SortedMap.empty.insertAll (expiryInfo.flatMap fun expinfo =>
    expinfo.2.list.map fun entry =>
      (entry.1, { key := entry.2
                  committingBlock := expinfo.1.committingBlk
                  purgeKeyOnly := false }))

def sameVersion (version : Option Height) (blockNum : ℕ) : Bool :=
  version.any fun version => version.blockNum == blockNum

/-- One turn of the loop of `prepareWorkingsetFor`; `none` removes the key. -/
def evaluate (db : DB) (purgeEntryK : CompositeKey)
    (purgeEntryV : KeyAndVersion) : Option KeyAndVersion :=
  let currentVersion := db.getKeyHashVersion purgeEntryK.ns purgeEntryK.coll purgeEntryK.key
  if sameVersion currentVersion purgeEntryV.committingBlock then
    some purgeEntryV
  else if purgeEntryV.key ≠ [] ∧
      sameVersion ((db.getPrivateData purgeEntryK.ns purgeEntryK.coll
        purgeEntryV.key).map VersionedValue.version)
        purgeEntryV.committingBlock then
    some { purgeEntryV with purgeKeyOnly := true }
  else none

def prepareWorkingsetFor (db : DB) (expKeeper : ExpirySchedule) (expiringAtBlk : ℕ) : WorkingSet :=
  let toPurge := transformToExpiryInfoMap (retrieve expKeeper expiringAtBlk)
  { toPurge := toPurge.mapFilter (evaluate db)
    toClearFromSchedule := toPurge.entries.map fun entry =>
      ⟨entry.2.committingBlock, expiringAtBlk⟩
    expiringBlk := expiringAtBlk }

/-- One turn of the loop of `addMissingPvtDataToWorkingSet`. -/
def addMissingPvtData (toPurge : ExpiryInfoMap) (k : PvtdataCompositeKey) : ExpiryInfoMap :=
  match toPurge.get (hashedKey computeHash k) with
  | none => toPurge
  | some toPurgeKey =>
    if toPurgeKey.purgeKeyOnly then toPurge.erase (hashedKey computeHash k)
    else toPurge.insert (hashedKey computeHash k)
      { toPurgeKey with key := k.key }

def addMissingPvtDataToWorkingSet
    (workingset : Option WorkingSet) (pvtKeys : List PvtdataCompositeKey) :
    Option WorkingSet :=
  workingset.map fun workingset =>
    { workingset with
      toPurge := pvtKeys.foldl (addMissingPvtData computeHash) workingset.toPurge }

/-- `retrieveByExpiryKey` and `addAll`.  If the schedule has no entry, what is
decoded has a nil map, to which nothing can be added. -/
def addToEntry (expKeeper : ExpirySchedule) (toAdd : ExpiryInfoKey × PvtdataKeys) :
    Outcome (ExpiryInfoKey × PvtdataKeys) :=
  match expKeeper.get toAdd.1 with
  | some pvtdataKeys => .ok (toAdd.1, pvtdataKeys.addAll toAdd.2)
  | none =>
    if toAdd.2.list.isEmpty then .ok (toAdd.1, SortedMap.empty)
    else .error (.panic "assignment to entry in nil map")

/-- `AddExpiredEntriesToUpdateBatch`: one turn for the hashed key. -/
def purgeHash (expiringTxVersion : Height) (hashedUpdates : HashedUpdateBatch)
    (entry : CompositeKey × KeyAndVersion) : HashedUpdateBatch :=
  if !hashedUpdates.contains entry.1.ns entry.1.coll entry.1.key && !entry.2.purgeKeyOnly then
    hashedUpdates.update entry.1.ns entry.1.coll entry.1.key (.delete expiringTxVersion)
  else hashedUpdates

/-- `AddExpiredEntriesToUpdateBatch`: the same turn for the private key. -/
def purgeKey (expiringTxVersion : Height) (pvtUpdates : PvtUpdateBatch)
    (entry : CompositeKey × KeyAndVersion) : PvtUpdateBatch :=
  if entry.2.key ≠ [] ∧ !pvtUpdates.contains entry.1.ns entry.1.coll entry.2.key then
    pvtUpdates.update entry.1.ns entry.1.coll entry.2.key (.delete expiringTxVersion)
  else pvtUpdates

def WorkingSet.expiringTxVersion (workingset : WorkingSet) : Height :=
  ⟨workingset.expiringBlk, maxUint64⟩

def addExpiredEntriesToUpdateBatch (workingset : WorkingSet)
    (batch : PrivacyUpdateBatch) : PrivacyUpdateBatch where
  pubAndHashUpdates :=
    { batch.pubAndHashUpdates with
      hashUpdates := workingset.toPurge.entries.foldl (purgeHash workingset.expiringTxVersion)
        batch.pubAndHashUpdates.hashUpdates }
  pvtUpdates := workingset.toPurge.entries.foldl
    (purgeKey workingset.expiringTxVersion) batch.pvtUpdates

namespace PurgeMgr

variable (p : PurgeMgr)

def prepareForExpiringKeys (db : DB) (expiringAtBlk : ℕ) : PurgeMgr :=
  { p with
    workingset := some (prepareWorkingsetFor db p.expKeeper expiringAtBlk) }

def updateExpiryInfo (batch : PrivacyUpdateBatch) : Outcome PurgeMgr := do
  let expiryInfoUpdates ← Outcome.returned (buildExpirySchedule computeHash
    btlPolicy batch.pvtUpdates batch.pubAndHashUpdates.hashUpdates)
  pure { p with
    expKeeper := p.expKeeper.insertAll expiryInfoUpdates.entries }

def updateExpiryInfoOfPvtDataOfOldBlocks (pvtUpdates : PvtUpdateBatch) : Outcome PurgeMgr := do
  let pvtUpdateCompositeKeyMap := pvtUpdates.toCompositeKeyMap
  let toAdd ← Outcome.returned (pvtUpdateCompositeKeyMap.entries.foldlM (fun schedule entry =>
      ExpirySchedule.add btlPolicy schedule entry.1.ns entry.1.coll
        entry.1.key (computeHash entry.1.key) entry.2) SortedMap.empty)
  let expiryInfoUpdates ← toAdd.entries.mapM (addToEntry p.expKeeper)
  pure { expKeeper := p.expKeeper.insertAll expiryInfoUpdates
         workingset := addMissingPvtDataToWorkingSet computeHash p.workingset
           pvtUpdateCompositeKeyMap.keys }

def blockCommitDone (workingset : WorkingSet) : PurgeMgr where
  expKeeper := p.expKeeper.eraseAll workingset.toClearFromSchedule
  workingset := none

end PurgeMgr

end FabricSequencer.Pvtstatepurgemgmt
