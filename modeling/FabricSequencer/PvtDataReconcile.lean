import FabricSequencer.PurgeRuns

/-!
# Reconciliation and eligibility

`CommitPvtDataOfOldBlocks` stores data that was missing and moves to the
deprioritized list what a round of reconciliation did not find.  When the peer
becomes a member of a collection, the entries of the ineligible list are moved
to the prioritized one by a goroutine of its own.  Both hold the lock of the
purger, but the goroutine releases it whenever it has written a batch, and goes
on with the iterator it has.

The flag for the list of blocks that older versions kept is not set.
-/

namespace FabricSequencer.Pvtdatastorage

abbrev BlocksPvtData := SortedMap ℕ (List TxPvtData)

/-- `ledger.MissingPvtDataInfo`, by block and transaction. -/
abbrev MissingPvtDataInfo := SortedMap ℕ (SortedMap ℕ (List (GoString × GoString)))

/-- `entriesForPvtDataOfOldBlocks`. -/
structure OldBlockEntries where
  dataEntries : SortedMap DataKey CollPvtRwSet
  expiryEntries : SortedMap ExpiryKey ExpiryData
  prioritizedMissingDataEntries : MissingData
  deprioritizedMissingDataEntries : MissingData

def emptyOldBlockEntries : OldBlockEntries where
  dataEntries := SortedMap.empty
  expiryEntries := SortedMap.empty
  prioritizedMissingDataEntries := SortedMap.empty
  deprioritizedMissingDataEntries := SortedMap.empty

variable (btlPolicy : BTLPolicy)

def constructExpiryKey (dataKey : DataKey) : Except String ExpiryKey :=
  match btlPolicy.getExpiringBlock dataKey.ns dataKey.coll dataKey.blkNum with
  | .error cause => .error ("error while constructing expiry data key: " ++ cause)
  | .ok expiringBlk => .ok { expiringBlk := expiringBlk, committingBlk := dataKey.blkNum }

variable (db : StoreDB) (entries : OldBlockEntries)

def StoreDB.getExpiryDataFromEntriesOrStore (expKey : ExpiryKey) : Option ExpiryData :=
  (entries.expiryEntries.get expKey).or (db.expiry.get expKey)

/-- One turn of the loop of `prepareDataAndExpiryEntries`. -/
def StoreDB.prepareDataAndExpiryEntry (db : StoreDB)
    (entries : OldBlockEntries) (dataEntry : DataEntry) :
    Except String OldBlockEntries := do
  let expKey ← constructExpiryKey btlPolicy dataEntry.1
  let withData :=
    { entries with
      dataEntries := entries.dataEntries.insert dataEntry.1 dataEntry.2 }
  if neverExpires expKey.expiringBlk then pure withData
  else
    match db.getExpiryDataFromEntriesOrStore entries expKey with
    | none => pure entries
    | some expData =>
      pure { withData with
        expiryEntries := entries.expiryEntries.insert expKey
          (expData.addPresentData dataEntry.1.ns dataEntry.1.coll dataEntry.1.txNum) }

def dataEntriesOfBlocks (blocksPvtData : BlocksPvtData) : List DataEntry :=
  blocksPvtData.entries.flatMap fun block =>
    prepareDataEntries block.1 block.2

def StoreDB.prepareDataAndExpiryEntries (db : StoreDB)
    (blocksPvtData : BlocksPvtData) : Except String OldBlockEntries :=
  (dataEntriesOfBlocks blocksPvtData).foldlM
    (db.prepareDataAndExpiryEntry btlPolicy) emptyOldBlockEntries

def StoreDB.getPrioMissingDataFromEntriesOrStore (key : NsCollBlk) : Option (Finset ℕ) :=
  (entries.prioritizedMissingDataEntries.get key).or (db.elgPrioMissingData.get key)

def StoreDB.getDeprioMissingDataFromEntriesOrStore (key : NsCollBlk) : Option (Finset ℕ) :=
  (entries.deprioritizedMissingDataEntries.get key).or (db.elgDeprioMissingData.get key)

/-- One turn of the loop of `prepareMissingDataEntriesToReflectReconciledData`. -/
def StoreDB.reflectReconciledData (dataKey : DataKey) : OldBlockEntries :=
  let key := dataKey.nsCollBlk
  let prioMissingData := (db.getPrioMissingDataFromEntriesOrStore entries key).getD ∅
  let deprioMissingData := (db.getDeprioMissingDataFromEntriesOrStore entries key).getD ∅
  if dataKey.txNum ∈ prioMissingData then
    { entries with
      prioritizedMissingDataEntries :=
        entries.prioritizedMissingDataEntries.insert key (prioMissingData.erase dataKey.txNum) }
  else if dataKey.txNum ∈ deprioMissingData then
    { entries with
      deprioritizedMissingDataEntries :=
        entries.deprioritizedMissingDataEntries.insert key (deprioMissingData.erase dataKey.txNum) }
  else entries

def StoreDB.prepareMissingDataEntriesToReflectReconciledData : OldBlockEntries :=
  entries.dataEntries.keys.foldl db.reflectReconciledData entries

def missingDataKeys (info : MissingPvtDataInfo) : List DataKey :=
  info.entries.flatMap fun block =>
    block.2.entries.flatMap fun tx =>
      tx.2.map fun nsColl => ⟨nsColl.1, nsColl.2, block.1, tx.1⟩

/-- One turn of the loop of `prepareMissingDataEntriesToReflectPriority`. -/
def StoreDB.reflectPriority (missing : DataKey) : OldBlockEntries :=
  let key := missing.nsCollBlk
  match db.getPrioMissingDataFromEntriesOrStore entries key with
  | none => entries
  | some prioMissingData =>
    let deprioMissingData := (db.getDeprioMissingDataFromEntriesOrStore entries key).getD ∅
    { entries with
      prioritizedMissingDataEntries :=
        entries.prioritizedMissingDataEntries.insert key (prioMissingData.erase missing.txNum)
      deprioritizedMissingDataEntries :=
        entries.deprioritizedMissingDataEntries.insert key
          (insert missing.txNum deprioMissingData) }

def StoreDB.prepareMissingDataEntriesToReflectPriority (deprioritizedList : MissingPvtDataInfo) :
    OldBlockEntries :=
  (missingDataKeys deprioritizedList).foldl db.reflectPriority entries

def putMissingData (stored changes : MissingData) : MissingData :=
  SortedMap.overlay (fun missingData => if missingData = ∅ then none else some missingData)
    stored changes

def StoreDB.putOldBlockEntries (hash : KeyHash) (db : StoreDB)
    (entries : OldBlockEntries) : StoreDB :=
  { db with
    data := db.data.insertAll entries.dataEntries.entries
    hashedIndex := db.hashedIndex.insertAll
      (prepareHashedIndexEntries hash entries.dataEntries.entries)
    expiry := db.expiry.insertAll entries.expiryEntries.entries
    elgPrioMissingData := putMissingData db.elgPrioMissingData entries.prioritizedMissingDataEntries
    elgDeprioMissingData := putMissingData db.elgDeprioMissingData
      entries.deprioritizedMissingDataEntries }

def StoreDB.commitPvtDataOfOldBlocks (hash : KeyHash) (btlPolicy : BTLPolicy)
    (db : StoreDB) (blocksPvtData : BlocksPvtData)
    (unreconciledMissingData : MissingPvtDataInfo) : Except String StoreDB := do
  let entries ← db.prepareDataAndExpiryEntries btlPolicy blocksPvtData
  let reconciled := db.prepareMissingDataEntriesToReflectReconciledData entries
  pure (db.putOldBlockEntries hash
    (db.prepareMissingDataEntriesToReflectPriority reconciled unreconciledMissingData))

def StoreDB.processCollsEligibilityEnabled (committingBlk : ℕ)
    (nsCollMap : SortedMap GoString (List GoString)) : StoreDB :=
  { db with collElg := db.collElg.insert committingBlk nsCollMap }

/-- What `processCollElgEvents` has to do for the events it has read: convert
the entries of a collection, and forget the event after the last of them. -/
inductive ElgTask where
  | convert (blkNum : ℕ) (ns coll : GoString)
  | forget (blkNum : ℕ)

/-- The goroutine in `processCollElgEvents`. -/
structure CollElgProc where
  tasks : List ElgTask
  collItr : List (NsCollBlk × Finset ℕ)
  converted : MissingData
  forgotten : List ℕ

/-- The order in which a `range` over the `NsCollMap` of a block's event meets the namespaces. -/
abbrev NsOrder := ℕ → List (GoString × List GoString) → List (GoString × List GoString)

def StoreDB.startCollElgProc (order : NsOrder) : CollElgProc where
  tasks := (db.collElg.restrict fun blkNum => decide (0 < blkNum)).entries.reverse.flatMap
    fun event =>
      ((order event.1 event.2.entries).flatMap fun colls =>
        colls.2.map fun coll => .convert event.1 colls.1 coll) ++
      [.forget event.1]
  collItr := []
  converted := SortedMap.empty
  forgotten := []

/-- The range of `createRangeScanKeysForInelgMissingData`. -/
def StoreDB.inelgMissingDataUpTo (maxBlkNum : ℕ)
    (ns coll : GoString) : List (NsCollBlk × Finset ℕ) :=
  (db.inelgMissingData.restrict fun key =>
    decide (key.ns = ns ∧ key.coll = coll ∧ 0 < key.blkNum ∧
      key.blkNum ≤ maxBlkNum)).entries.reverse

def StoreDB.convertMissingData (converted : MissingData) (forgotten : List ℕ) : StoreDB :=
  { db with
    elgPrioMissingData := db.elgPrioMissingData.insertAll converted.entries
    inelgMissingData := db.inelgMissingData.eraseAll converted.keys
    collElg := db.collElg.eraseAll forgotten }

inductive CollElgState where
  | waiting
  | holding (proc : CollElgProc)
  | sleeping (proc : CollElgProc)

/-- One step of the goroutine.  `exceeds` tells whether the batch is over the
limit. -/
def CollElgProc.step (exceeds : Bool) (proc : CollElgProc) : StoreDB × CollElgState :=
  match proc.collItr, proc.tasks with
  | entry :: collItr, _ =>
    let converted := proc.converted.insert entry.1 entry.2
    if exceeds then
      (db.convertMissingData converted proc.forgotten, .sleeping { proc with
          collItr := collItr, converted := SortedMap.empty
          forgotten := [] })
    else
      (db, .holding { proc with
        collItr := collItr, converted := converted })
  | [], .convert blkNum ns coll :: tasks =>
    (db, .holding { proc with
      tasks := tasks, collItr := db.inelgMissingDataUpTo blkNum ns coll })
  | [], .forget blkNum :: tasks =>
    (db, .holding { proc with
      tasks := tasks, forgotten := blkNum :: proc.forgotten })
  | [], [] => (db.convertMissingData proc.converted proc.forgotten, .waiting)

structure StoreWorld where
  db : StoreDB
  scheduled : List ℕ
  purger : Option Purger
  elg : CollElgState

def initialStoreWorld : StoreWorld where
  db := emptyStore
  scheduled := []
  purger := none
  elg := .waiting

/-- Nobody holds `purgerLock`. -/
def StoreWorld.unlocked (world : StoreWorld) : Bool :=
  match world.purger, world.elg with
  | none, .waiting => true
  | none, .sleeping _ => true
  | _, _ => false

inductive StoreEvent where
  | commit (input : CommitInput)
  | commitOldBlocks (blocksPvtData : BlocksPvtData) (unreconciledMissingData : MissingPvtDataInfo)
  | collsEligible (committingBlk : ℕ) (nsCollMap : SortedMap GoString (List GoString))
  | startPurger (index : ℕ)
  | purgerStep (exceeds : Bool)
  | startCollElg (order : NsOrder)
  | wakeCollElg
  | collElgStep (exceeds : Bool)

def StoreWorld.step (hash : KeyHash) (btlPolicy : BTLPolicy)
    (purgeInterval : ℕ) (world : StoreWorld) : StoreEvent → StoreWorld
  | .commit input =>
    match world.db.commit hash btlPolicy input with
    | .error _ => world
    | .ok db =>
      { world with
        db := db
        scheduled := performPurgeIfScheduled purgeInterval world.scheduled input.blockNum }
  | .commitOldBlocks blocksPvtData unreconciledMissingData =>
    if world.unlocked then
      match world.db.commitPvtDataOfOldBlocks hash btlPolicy blocksPvtData
          unreconciledMissingData with
      | .error _ => world
      | .ok db => { world with db := db }
    else world
  | .collsEligible committingBlk nsCollMap =>
    { world with
      db := world.db.processCollsEligibilityEnabled committingBlk nsCollMap }
  | .startPurger index =>
    match world.unlocked, world.scheduled[index]? with
    | true, some latestCommittedBlk =>
      { world with
        scheduled := world.scheduled.eraseIdx index
        purger := some (.expiring (world.db.retrieveExpiryEntries latestCommittedBlk)) }
    | _, _ => world
  | .purgerStep exceeds =>
    match world.purger with
    | none => world
    | some purger =>
      { world with
        db := (purger.step hash world.db exceeds).1
        purger := (purger.step hash world.db exceeds).2 }
  | .startCollElg order =>
    match world.unlocked, world.elg with
    | true, .waiting =>
      { world with elg := .holding (world.db.startCollElgProc order) }
    | _, _ => world
  | .wakeCollElg =>
    match world.unlocked, world.elg with
    | true, .sleeping proc => { world with elg := .holding proc }
    | _, _ => world
  | .collElgStep exceeds =>
    match world.elg with
    | .holding proc =>
      { world with
        db := (proc.step world.db exceeds).1
        elg := (proc.step world.db exceeds).2 }
    | _ => world

def StoreWorld.run (hash : KeyHash) (btlPolicy : BTLPolicy)
    (purgeInterval : ℕ) (world : StoreWorld) (events : List StoreEvent) :
    StoreWorld :=
  events.foldl (StoreWorld.step hash btlPolicy purgeInterval) world

end FabricSequencer.Pvtdatastorage
