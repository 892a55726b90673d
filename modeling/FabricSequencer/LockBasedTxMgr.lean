import FabricSequencer.StatePurge

/-!
# The transaction manager

`LockBasedTxMgr` commits a block in two calls: `ValidateAndPrepare` keeps the
updates, `Commit` adds the deletes of the purge manager and applies them.
Between the two the keys that the block purges may be added, and private data
of old blocks may be committed, since both calls release the lock.

The state listeners are left out, and the database does not fail.
-/

namespace FabricSequencer

open Pvtdatastorage (TxPvtData BTLPolicy)
open Pvtstatepurgemgmt SortedMap PvtUpdateBatch

/-- What a transaction manager is created with: the hash function of the
ledger, `util.ComputeHash`, and the time to live of the collections. -/
structure TxMgrConfig where
  hashFunc : Bytes → Bytes
  computeHash : Bytes → Bytes
  btlPolicy : BTLPolicy

structure CurrentUpdates where
  block : Block
  prepared : PreparedBlock

structure TxMgr where
  db : DB
  pvtdataPurgeMgr : PurgeMgr
  usedOnce : Bool
  currentUpdates : Option CurrentUpdates

structure PvtKVWrite where
  key : GoString
  isDelete : Bool
  value : Bytes
  version : Height

/-- `uniquePvtDataMap`: for each hashed key the write of the highest version. -/
abbrev UniquePvtData := SortedMap CompositeKey PvtKVWrite

namespace UniquePvtData

variable (computeHash : Bytes → Bytes)

def updateUsingPvtWrite (ver : Height)
    (uniquePvtData : UniquePvtData) (write : GoString × GoString × KVWrite) :
    UniquePvtData :=
  let (ns, coll, pvtWrite) := write
  let hashedCompositeKey : CompositeKey := ⟨ns, coll, computeHash pvtWrite.key⟩
  let replaced := uniquePvtData.insert hashedCompositeKey
    { key := pvtWrite.key
      isDelete := isKVWriteDelete pvtWrite
      value := pvtWrite.value
      version := ver }
  match uniquePvtData.get hashedCompositeKey with
  | none => replaced
  | some pvtData =>
    if pvtData.version.compare ver < 0 then replaced else uniquePvtData

def updateUsingTxPvtData (blkNum : ℕ)
    (uniquePvtData : UniquePvtData) (txPvtData : TxPvtData) : UniquePvtData :=
  txPvtData.kvWrites.foldl (updateUsingPvtWrite computeHash ⟨blkNum, txPvtData.seqInBlock⟩)
    uniquePvtData

end UniquePvtData

abbrev ReconciledPvtdata := SortedMap ℕ (List TxPvtData)

variable (computeHash hash : Bytes → Bytes)

def constructUniquePvtData (reconciledPvtdata : ReconciledPvtdata) : UniquePvtData :=
  reconciledPvtdata.entries.foldl (fun uniquePvtData block =>
    block.2.foldl (UniquePvtData.updateUsingTxPvtData computeHash block.1)
      uniquePvtData) SortedMap.empty

/-- `checkIfPvtWriteIsStale`; `none` if it is.  The write gets the version of
the hashed key if its value matches. -/
def checkIfPvtWriteIsStale (db : DB)
    (hashedKey : CompositeKey) (kvWrite : PvtKVWrite) : Option PvtKVWrite :=
  match db.getValueHash hashedKey.ns hashedKey.coll hashedKey.key with
  | none => if kvWrite.isDelete then some kvWrite else none
  | some vv =>
    if areSame (some vv.version) (some kvWrite.version) then some kvWrite
    else if vv.value = computeHash kvWrite.value then
      some { kvWrite with version := vv.version }
    else none

/-- One turn of the loop of `transformToUpdateBatch`. -/
def PvtUpdateBatch.addPvtKVWrite (batch : PvtUpdateBatch)
    (entry : CompositeKey × PvtKVWrite) : PvtUpdateBatch :=
  let (hashedKey, pvtWrite) := entry
  if pvtWrite.isDelete then
    HashedUpdateBatch.update batch hashedKey.ns hashedKey.coll pvtWrite.key
      (.delete pvtWrite.version)
  else
    HashedUpdateBatch.update batch hashedKey.ns hashedKey.coll pvtWrite.key
      (.put pvtWrite.value none pvtWrite.version)

def oldBlockUpdates (db : DB) (reconciledPvtdata : ReconciledPvtdata) : PvtUpdateBatch :=
  let uniquePvtData := constructUniquePvtData computeHash reconciledPvtdata
  (uniquePvtData.mapFilter (checkIfPvtWriteIsStale computeHash db)).entries.foldl
    PvtUpdateBatch.addPvtKVWrite SortedMap.empty

def PrivacyUpdateBatch.ofPvt (pvtUpdates : PvtUpdateBatch) : PrivacyUpdateBatch where
  pubAndHashUpdates := newPubAndHashUpdates
  pvtUpdates := pvtUpdates

/-- One turn of the loop of `purgeAppInitiatedPvtKeys`. -/
def purgeAppInitiatedPvtKey (pvtUpdates : PvtUpdateBatch)
    (key : PvtdataCompositeKey × Height) : PvtUpdateBatch :=
  let (ck, ver) := key
  match pvtUpdates.getUpdate ck.ns ck.coll ck.key with
  | none => HashedUpdateBatch.update pvtUpdates ck.ns ck.coll ck.key (.delete ver)
  | some pvtValVer =>
    if pvtValVer.version.compare ver < 0 then
      HashedUpdateBatch.update pvtUpdates ck.ns ck.coll ck.key (.delete ver)
    else pvtUpdates

abbrev PvtKeysToPurge := SortedMap PvtdataCompositeKey Height

def purgeAppInitiatedPvtKeys (batch : PrivacyUpdateBatch)
    (keys : PvtKeysToPurge) : PrivacyUpdateBatch :=
  { batch with
    pvtUpdates := keys.entries.foldl purgeAppInitiatedPvtKey batch.pvtUpdates }

namespace TxMgr

variable (config : TxMgrConfig) (txmgr : TxMgr)

def validateAndPrepare (blk : Block) (pvtdata : TxPvtDataMap)
    (doMVCCValidation : Bool) : Outcome TxMgr := do
  let prepared ← prepareBlock config.hashFunc config.computeHash txmgr.db blk
    pvtdata doMVCCValidation
  pure { txmgr with
    currentUpdates := some { block := blk, prepared := prepared } }

def updateBatchWithAppInitiatedPvtKeysToPurge (keys : PvtKeysToPurge) : TxMgr :=
  { txmgr with
    currentUpdates := txmgr.currentUpdates.map fun current =>
      { current with
        prepared :=
          { current.prepared with
            batch := purgeAppInitiatedPvtKeys current.prepared.batch keys } } }

def removeStaleAndCommitPvtDataOfOldBlocks
    (reconciledPvtdata : ReconciledPvtdata) : Outcome TxMgr :=
  if (constructUniquePvtData config.computeHash reconciledPvtdata).entries.isEmpty then .ok txmgr
  else do
    let pvtUpdates := oldBlockUpdates config.computeHash txmgr.db reconciledPvtdata
    let pvtdataPurgeMgr ←
      txmgr.pvtdataPurgeMgr.updateExpiryInfoOfPvtDataOfOldBlocks
        config.computeHash config.btlPolicy pvtUpdates
    pure { txmgr with
      pvtdataPurgeMgr := pvtdataPurgeMgr
      db := txmgr.db.applyPrivacyAwareUpdates (.ofPvt pvtUpdates) }

/-- The purge manager at the start of `Commit`.  For the first block after the
start of the peer the working set is prepared in-line. -/
def preparedPurgeMgr (blockNum : ℕ) : PurgeMgr :=
  if txmgr.usedOnce then txmgr.pvtdataPurgeMgr
  else txmgr.pvtdataPurgeMgr.prepareForExpiringKeys txmgr.db blockNum

def commitUpdates (current : CurrentUpdates) : Outcome TxMgr := do
  let blockNum := current.block.num
  let pvtdataPurgeMgr ← (txmgr.preparedPurgeMgr blockNum).updateExpiryInfo
    config.computeHash config.btlPolicy current.prepared.batch
  match pvtdataPurgeMgr.workingset with
  | none => .error (.panic "invalid memory address or nil pointer dereference")
  | some workingset =>
    let batch := addExpiredEntriesToUpdateBatch workingset current.prepared.batch
    let db := txmgr.db.applyPrivacyAwareUpdates batch
    let committed := pvtdataPurgeMgr.blockCommitDone workingset
    pure { db := db
           pvtdataPurgeMgr := committed.prepareForExpiringKeys db (blockNum + 1)
           usedOnce := true
           currentUpdates := none }

def commit (txmgr : TxMgr) : Outcome TxMgr :=
  match txmgr.currentUpdates with
  | none =>
    .error (.panic ("validateAndPrepare() method should have been called " ++
      "before calling commit()"))
  | some current => txmgr.commitUpdates config current

def restarted : TxMgr where
  db := txmgr.db
  pvtdataPurgeMgr :=
    { expKeeper := txmgr.pvtdataPurgeMgr.expKeeper, workingset := none }
  usedOnce := false
  currentUpdates := none

end TxMgr

variable {computeHash hash : Bytes → Bytes}

theorem get_updateUsingPvtWrite {ver : Height} {uniquePvtData : UniquePvtData}
    {write : GoString × GoString × KVWrite} {ck : CompositeKey} {w : PvtKVWrite}
    (hg : (UniquePvtData.updateUsingPvtWrite hash ver uniquePvtData write).get ck = some w) :
    uniquePvtData.get ck = some w ∨
      ck = ⟨write.1, write.2.1, hash write.2.2.key⟩ ∧
        w = { key := write.2.2.key
              isDelete := isKVWriteDelete write.2.2
              value := write.2.2.value
              version := ver } := by
  unfold UniquePvtData.updateUsingPvtWrite at hg
  dsimp only at hg
  split at hg
  · rw [get_insert] at hg
    split_ifs at hg with hk
    · exact .inr ⟨hk, (Option.some.inj hg).symm⟩
    · exact .inl hg
  split_ifs at hg
  · rw [get_insert] at hg
    split_ifs at hg with hk
    · exact .inr ⟨hk, (Option.some.inj hg).symm⟩
    · exact .inl hg
  · exact .inl hg

def DeliveredWrite (computeHash : Bytes → Bytes)
    (reconciledPvtdata : ReconciledPvtdata) (ck : CompositeKey) (w : PvtKVWrite) : Prop :=
  ∃ block ∈ reconciledPvtdata.entries, ∃ txPvtData ∈ block.2,
    ∃ write ∈ txPvtData.kvWrites, ck = ⟨write.1, write.2.1, computeHash write.2.2.key⟩ ∧
      w = { key := write.2.2.key
            isDelete := isKVWriteDelete write.2.2
            value := write.2.2.value
            version := ⟨block.1, txPvtData.seqInBlock⟩ }

variable {reconciledPvtdata : ReconciledPvtdata}

theorem deliveredWrite_of_get {ck : CompositeKey} {w : PvtKVWrite}
    (hg : (constructUniquePvtData hash reconciledPvtdata).get ck =
      some w) : DeliveredWrite hash reconciledPvtdata ck w := by
  unfold constructUniquePvtData at hg
  refine List.foldlRecOn reconciledPvtdata.entries _
    (motive := fun rc : UniquePvtData => rc.get ck = some w → _) (fun hno => by cases hno) ?_ hg
  intro _ hou block hb
  refine List.foldlRecOn block.2 _ (motive := fun rc : UniquePvtData => rc.get ck = some w → _)
    hou ?_
  intro _ hm txPvtData htx
  refine List.foldlRecOn txPvtData.kvWrites _
    (motive := fun rc : UniquePvtData => rc.get ck = some w → _) hm ?_
  intro _ hin write hwt hnx
  rcases get_updateUsingPvtWrite hnx with hold | ⟨hk, hmd⟩
  · exact hin hold
  · exact ⟨block, hb, txPvtData, htx, write, hwt, hk, hmd⟩

def PvtKVWrite.update (pvtWrite : PvtKVWrite) : Update :=
  if pvtWrite.isDelete then .delete pvtWrite.version
  else .put pvtWrite.value none pvtWrite.version

theorem getUpdate_addPvtKVWrite (batch : PvtUpdateBatch)
    (e : CompositeKey × PvtKVWrite) (ns coll key : GoString) :
    (addPvtKVWrite batch e).getUpdate ns coll key =
      if ns = e.1.ns ∧ coll = e.1.coll ∧ key = e.2.key then
        some e.2.update
      else batch.getUpdate ns coll key := by
  unfold addPvtKVWrite PvtKVWrite.update
  dsimp only
  split_ifs <;> rw [HashedUpdateBatch.getUpdate_update] <;> simp_all

theorem getUpdate_oldBlockUpdates {db : DB} {ns coll key : GoString} {vv : Update}
    (hg : (oldBlockUpdates hash db reconciledPvtdata).getUpdate ns coll key = some vv) :
    ∃ ck delivered committed, ck.ns = ns ∧ ck.coll = coll ∧ committed.key = key ∧
      DeliveredWrite hash reconciledPvtdata ck delivered ∧
      checkIfPvtWriteIsStale hash db ck delivered = some committed ∧
      vv = committed.update := by
  unfold oldBlockUpdates at hg
  dsimp only at hg
  refine List.foldlRecOn _ addPvtKVWrite (motive := fun rc : PvtUpdateBatch =>
      rc.getUpdate ns coll key = some vv → _)
    (fun hno => by cases hno) ?_ hg
  intro _ hrc e he hnx
  rw [getUpdate_addPvtKVWrite] at hnx
  split_ifs at hnx with hk
  · have hfn := get_eq_some_iff.mpr he
    rw [get_mapFilter] at hfn
    obtain ⟨delivered, hdl, hcm⟩ := Option.bind_eq_some_iff.mp hfn
    exact ⟨e.1, delivered, e.2, hk.1.symm, hk.2.1.symm, hk.2.2.symm, deliveredWrite_of_get hdl, hcm,
      (Option.some.inj hnx).symm⟩
  · exact hrc hnx

inductive TxMgrEvent where
  | validateAndPrepare (blk : Block) (pvtdata : TxPvtDataMap) (doMVCCValidation : Bool)
  | purgeKeys (keys : PvtKeysToPurge)
  | commit
  | oldBlocks (reconciledPvtdata : ReconciledPvtdata)
  | restart

structure TxMgrWorld where
  txmgr : TxMgr
  height : ℕ
  history : Height → Option TxRwSet

def CurrentUpdates.validRwSet (current : CurrentUpdates) (txNum : ℕ) : Option TxRwSet :=
  ((current.block.txs.zip current.prepared.codes).find? fun tx =>
    decide (tx.2 = .valid) && decide (tx.1.indexInBlock = txNum)).map fun tx => tx.1.rwset

namespace TxMgrWorld

def recordBlock (world : TxMgrWorld) : Height → Option TxRwSet := fun height =>
  if height.blockNum = world.height then
    world.txmgr.currentUpdates.bind fun current =>
      current.validRwSet height.txNum
  else world.history height

variable (config : TxMgrConfig)

/-- A call that panics ends the peer, and so does an error on a block. -/
def step (world : TxMgrWorld) : TxMgrEvent → TxMgrWorld
  | .validateAndPrepare blk pvtdata doMVCCValidation =>
    match world.txmgr.validateAndPrepare config blk pvtdata doMVCCValidation with
    | .ok txmgr => { world with txmgr := txmgr }
    | .error _ => { world with txmgr := world.txmgr.restarted }
  | .purgeKeys keys =>
    { world with
      txmgr := world.txmgr.updateBatchWithAppInitiatedPvtKeysToPurge keys }
  | .commit =>
    match world.txmgr.commit config with
    | .ok txmgr =>
      { txmgr := txmgr
        height := world.height + 1
        history := world.recordBlock }
    | .error _ => { world with txmgr := world.txmgr.restarted }
  | .oldBlocks reconciledPvtdata =>
    match world.txmgr.removeStaleAndCommitPvtDataOfOldBlocks config reconciledPvtdata with
    | .ok txmgr => { world with txmgr := txmgr }
    | .error (.error _) => world
    | .error (.panic _) => { world with txmgr := world.txmgr.restarted }
  | .restart => { world with txmgr := world.txmgr.restarted }

def run (world : TxMgrWorld) (events : List TxMgrEvent) : TxMgrWorld :=
  events.foldl (step config) world

end TxMgrWorld

end FabricSequencer
