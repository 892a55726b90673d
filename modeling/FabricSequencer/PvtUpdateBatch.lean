import FabricSequencer.BlockValidation
import FabricSequencer.PvtDataStore

/-!
# The private updates of a block

`ValidateAndPrepareBatch` prepares, besides the public and hashed updates, the
updates of the private data that the peer holds for the valid transactions.  A
write set is checked against its hash in the block.  A transaction that only
changes the metadata of a private key moves the version of the hashed key, so
the private key gets the same version if its value matches the hash.
-/

namespace FabricSequencer

open Pvtdatastorage (TxPvtData CollPvtRwSet NsPvtReadWriteSet)

/-- `PvtUpdateBatch`: an `UpdateMap` as the one of the hashed updates. -/
abbrev PvtUpdateBatch := HashedUpdateBatch

/-- `privacyenabledstate.UpdateBatch`. -/
structure PrivacyUpdateBatch where
  pubAndHashUpdates : PublicAndHashUpdates
  pvtUpdates : PvtUpdateBatch

def HashedUpdateBatch.toCompositeKeyMap (batch : HashedUpdateBatch) :
    SortedMap CompositeKey Update :=
  SortedMap.empty.insertAll (batch.entries.flatMap fun ns =>
    ns.2.entries.flatMap fun coll =>
      coll.2.entries.map fun entry => (⟨ns.1, coll.1, entry.1⟩, entry.2))

/-- What the batch changes in a namespace of the underlying database. -/
def PrivacyUpdateBatch.changes (batch : PrivacyUpdateBatch) : StateNs → SortedMap GoString Update
  | .pvt ns coll => (batch.pvtUpdates.nsBatch ns).nsUpdates coll
  | space => batch.pubAndHashUpdates.changes space

namespace DB

variable (db : DB)

variable (batch : PrivacyUpdateBatch)

/-- `ApplyPrivacyAwareUpdates`.  Private data does not count for the metadata
hint. -/
def applyPrivacyAwareUpdates : DB where
  data space := SortedMap.overlay Update.resolve (db.data space) (batch.changes space)
  metadataHint := (db.applyUpdates batch.pubAndHashUpdates).metadataHint
  hint_covers := by
    intro space key vv hspace hget hmetadata
    have hchanges : batch.changes space = batch.pubAndHashUpdates.changes space := by
      cases space with
      | pub | hashed => rfl
      | pvt ns coll => exact absurd rfl (hspace ns coll)
    rw [hchanges] at hget
    exact (db.applyUpdates batch.pubAndHashUpdates).hint_covers space key vv hspace hget hmetadata

theorem getState_applyPrivacyAwareUpdates (space : StateNs) (key : GoString) :
    (db.applyPrivacyAwareUpdates batch).getState space key =
      ((batch.changes space).get key).elim (db.getState space key) Update.resolve :=
  SortedMap.get_overlay Update.resolve (db.data space) (batch.changes space) key

theorem getValueHash_applyPrivacyAwareUpdates (ns coll kh : GoString) :
    (db.applyPrivacyAwareUpdates batch).getValueHash ns coll kh =
      (batch.pubAndHashUpdates.hashUpdates.getUpdate ns coll kh).elim
        (db.getValueHash ns coll kh) Update.resolve :=
  getState_applyPrivacyAwareUpdates db batch (.hashed ns coll) kh

variable (ns coll key : GoString)

def getPrivateData : Option VersionedValue :=
  db.getState (.pvt ns coll) key

theorem getPrivateData_applyPrivacyAwareUpdates :
    (db.applyPrivacyAwareUpdates batch).getPrivateData ns coll key =
      (batch.pvtUpdates.getUpdate ns coll key).elim
        (db.getPrivateData ns coll key) Update.resolve :=
  getState_applyPrivacyAwareUpdates db batch (.pvt ns coll) key

end DB

def TxRwSet.containsPvtWrites (rwset : TxRwSet) : Bool :=
  rwset.nsRwSets.any fun ns =>
    ns.collHashedRwSets.any fun coll => coll.pvtRwSetHash.isSome

def TxRwSet.retrieveHash (rwset : TxRwSet) (ns coll : GoString) : Option Bytes :=
  (rwset.nsRwSets.findSome? fun nsData =>
    if nsData.nameSpace = ns then
      nsData.collHashedRwSets.findSome? fun collData =>
        if collData.collectionName = coll then some collData.pvtRwSetHash
        else none
    else none).join

/-- A byte slice as the verb `%#v` prints it. -/
def goSyntax : Option Bytes → String
  | none => "[]byte(nil)"
  | some bytes =>
    "[]byte\x7b" ++ ", ".intercalate (bytes.map fun byte =>
      "0x" ++ String.ofList (Nat.toDigits 16 byte.val)) ++ "\x7d"

variable (computeHash : Bytes → Bytes)

def validateCollPvtdata (rwset : TxRwSet)
    (ns : GoString) (collPvtdata : CollPvtRwSet) : Outcome Unit :=
  let collPvtdataHash := computeHash (marshalKVRWSet collPvtdata.kvRwSet)
  let hashInPubdata := rwset.retrieveHash ns collPvtdata.collectionName
  if collPvtdataHash = hashInPubdata.getD [] then .ok ()
  else
    .error (.error ("hash of pvt data for collection [" ++ printed ns ++ ":" ++
      printed collPvtdata.collectionName ++ "] does not match with the " ++
      "corresponding hash in the public data. public hash = [" ++
      goSyntax hashInPubdata ++ "], pvt data hash = [" ++
      goSyntax (some collPvtdataHash) ++ "]"))

def validatePvtdata (rwset : TxRwSet) (pvtdata : TxPvtData) : Outcome Unit :=
  forM pvtdata.nsPvtRwset fun nsPvtdata =>
    forM nsPvtdata.collectionPvtRwset (validateCollPvtdata computeHash rwset nsPvtdata.nameSpace)

/-- A key of a private collection: `PvtdataCompositeKey`, or by its hash
`HashedCompositeKey`. -/
abbrev PvtdataCompositeKey := CompositeKey

def Pvtdatastorage.TxPvtData.colls (pvtdata : TxPvtData) : List (GoString × CollPvtRwSet) :=
  pvtdata.nsPvtRwset.flatMap fun ns =>
    ns.collectionPvtRwset.map fun coll => (ns.nameSpace, coll)

def Pvtdatastorage.TxPvtData.kvWrites (pvtdata : TxPvtData) :
    List (GoString × GoString × KVWrite) :=
  pvtdata.colls.flatMap fun coll =>
    coll.2.kvRwSet.writes.map fun write =>
      (coll.1, coll.2.collectionName, write)

def PvtUpdateBatch.addKVWrite (ver : Height) (batch : PvtUpdateBatch)
    (write : GoString × GoString × KVWrite) : PvtUpdateBatch :=
  let (ns, coll, kvwrite) := write
  if isKVWriteDelete kvwrite then
    HashedUpdateBatch.update batch ns coll kvwrite.key (.delete ver)
  else HashedUpdateBatch.update batch ns coll kvwrite.key (.put kvwrite.value none ver)

def addPvtRWSetToPvtUpdateBatch (pvtRWSet : TxPvtData)
    (pvtUpdateBatch : PvtUpdateBatch) (ver : Height) : PvtUpdateBatch :=
  pvtRWSet.kvWrites.foldl (PvtUpdateBatch.addKVWrite ver) pvtUpdateBatch

abbrev MetadataUpdates := SortedMap PvtdataCompositeKey Bool

def addEntriesToMetadataUpdates (metadataUpdates : MetadataUpdates)
    (pvtRWSet : TxPvtData) : MetadataUpdates :=
  metadataUpdates.insertAll (pvtRWSet.colls.flatMap fun coll =>
    coll.2.kvRwSet.metadataWrites.map fun metadataWrite =>
      (⟨coll.1, coll.2.collectionName, metadataWrite.key⟩, true))

def VersionedValue.toUpdate (vv : VersionedValue) : Update := .put vv.value vv.metadata vv.version

def retrieveLatestVal (ck : PvtdataCompositeKey)
    (pvtUpdateBatch : PvtUpdateBatch) (db : DB) : Option Update :=
  (pvtUpdateBatch.getUpdate ck.ns ck.coll ck.key).or
    ((db.getPrivateData ck.ns ck.coll ck.key).map VersionedValue.toUpdate)

variable (pubAndHashUpdates : PublicAndHashUpdates)

/-- One turn of the loop of `incrementPvtdataVersionIfNeeded`.  A deleted key
has a nil value, whose hash is the one of the empty value. -/
def incrementPvtdataVersion (db : DB) (pvtUpdateBatch : PvtUpdateBatch) (ck : PvtdataCompositeKey) :
    Outcome PvtUpdateBatch :=
  match pubAndHashUpdates.hashUpdates.getUpdate ck.ns ck.coll (computeHash ck.key) with
  | none => .ok pvtUpdateBatch
  | some hashedVal =>
    match retrieveLatestVal ck pvtUpdateBatch db with
    | none => .ok pvtUpdateBatch
    | some latestVal =>
      if areSame (some latestVal.version) (some hashedVal.version) then
        .ok pvtUpdateBatch
      else if computeHash (latestVal.value.getD []) = hashedVal.value.getD [] then
        match latestVal.value with
        | none => .error (.panic "Nil value not allowed. Instead call 'Delete' function")
        | some value =>
          .ok (HashedUpdateBatch.update pvtUpdateBatch ck.ns ck.coll
            ck.key (.put value none hashedVal.version))
      else .ok pvtUpdateBatch

def incrementPvtdataVersionIfNeeded (metadataUpdates : MetadataUpdates)
    (pvtUpdateBatch : PvtUpdateBatch) (pubAndHashUpdates : PublicAndHashUpdates) (db : DB) :
    Outcome PvtUpdateBatch :=
  metadataUpdates.keys.foldlM
    (incrementPvtdataVersion computeHash pubAndHashUpdates db) pvtUpdateBatch

/-- `ledger.TxPvtDataMap`: the write sets that the peer has, by the index of
the transaction. -/
abbrev TxPvtDataMap := SortedMap ℕ TxPvtData

/-- One turn of the loop of `validateAndPreparePvtBatch`. -/
def addTxPvtdata (num : ℕ) (pvtdata : TxPvtDataMap) (collected : PvtUpdateBatch × MetadataUpdates)
    (tx : Transaction × TxValidationCode) : Outcome (PvtUpdateBatch × MetadataUpdates) :=
  if tx.2 ≠ .valid then .ok collected
  else if !tx.1.rwset.containsPvtWrites then .ok collected
  else
    match pvtdata.get tx.1.indexInBlock with
    | none => .ok collected
    | some txPvtdata => do
        validatePvtdata computeHash tx.1.rwset txPvtdata
        pure (addPvtRWSetToPvtUpdateBatch txPvtdata collected.1 ⟨num, tx.1.indexInBlock⟩,
          addEntriesToMetadataUpdates collected.2 txPvtdata)

def validateAndPreparePvtBatch (blk : Block) (codes : List TxValidationCode) (db : DB)
    (pubAndHashUpdates : PublicAndHashUpdates) (pvtdata : TxPvtDataMap) :
    Outcome PvtUpdateBatch := do
  let (pvtUpdates, metadataUpdates) ← (blk.txs.zip codes).foldlM
    (addTxPvtdata computeHash blk.num pvtdata) (SortedMap.empty, SortedMap.empty)
  incrementPvtdataVersionIfNeeded computeHash metadataUpdates pvtUpdates pubAndHashUpdates db

/-- What `ValidateAndPrepareBatch` returns, with the codes of the
transactions. -/
structure PreparedBlock where
  batch : PrivacyUpdateBatch
  purgeUpdates : PvtdataPurgeTracker
  codes : List TxValidationCode

/-- `ValidateAndPrepareBatch` of the parsed block. -/
def prepareBlock (hashFunc computeHash : Bytes → Bytes) (db : DB) (blk : Block)
    (pvtdata : TxPvtDataMap) (doMVCCValidation : Bool) :
    Outcome PreparedBlock := do
  let (prepared, codes) ← validateAndPrepareBatch hashFunc db blk doMVCCValidation
  let pvtUpdates ← validateAndPreparePvtBatch computeHash blk codes db prepared.updates pvtdata
  pure { batch := { pubAndHashUpdates := prepared.updates
                    pvtUpdates := pvtUpdates }
         purgeUpdates := prepared.purgeTracker
         codes := codes }

def KVWrite.pvtUpdate (ver : Height) (kvwrite : KVWrite) : Update :=
  if isKVWriteDelete kvwrite then .delete ver else .put kvwrite.value none ver

theorem getUpdate_addKVWrite (ver : Height) (batch : PvtUpdateBatch)
    (w : GoString × GoString × KVWrite) (ns coll key : GoString) :
    (PvtUpdateBatch.addKVWrite ver batch w).getUpdate ns coll key =
      if ns = w.1 ∧ coll = w.2.1 ∧ key = w.2.2.key then
        some (w.2.2.pvtUpdate ver)
      else batch.getUpdate ns coll key := by
  unfold PvtUpdateBatch.addKVWrite KVWrite.pvtUpdate
  dsimp only
  split_ifs <;> rw [HashedUpdateBatch.getUpdate_update] <;> simp_all

variable {ns coll key : GoString} {vv : Update}

theorem getUpdate_addPvtRWSet {pvtRWSet : TxPvtData} {batch : PvtUpdateBatch} {ver : Height}
    (hg : (addPvtRWSetToPvtUpdateBatch pvtRWSet batch ver).getUpdate ns coll key = some vv) :
    batch.getUpdate ns coll key = some vv ∨
      ∃ kvwrite, (ns, coll, kvwrite) ∈ pvtRWSet.kvWrites ∧
        kvwrite.key = key ∧ vv = kvwrite.pvtUpdate ver := by
  refine List.foldlRecOn pvtRWSet.kvWrites (PvtUpdateBatch.addKVWrite ver)
    (motive := fun ad : PvtUpdateBatch =>
      ad.getUpdate ns coll key = some vv → _)
    Or.inl ?_ hg
  intro _ ha w hwt hnx
  rw [getUpdate_addKVWrite] at hnx
  split_ifs at hnx with heq
  · obtain ⟨rfl, rfl, rfl⟩ := heq
    exact .inr ⟨w.2.2, hwt, rfl, (Option.some.inj hnx).symm⟩
  · exact ha hnx

def WrittenByTx (blk : Block) (codes : List TxValidationCode)
    (pvtdata : TxPvtDataMap) (ns coll key : GoString) (vv : Update) : Prop :=
  ∃ tx txPvtdata kvwrite, (tx, TxValidationCode.valid) ∈ blk.txs.zip codes ∧
    pvtdata.get tx.indexInBlock = some txPvtdata ∧
    (ns, coll, kvwrite) ∈ txPvtdata.kvWrites ∧ kvwrite.key = key ∧
    vv = kvwrite.pvtUpdate ⟨blk.num, tx.indexInBlock⟩

def Renewed (ns coll key : GoString) (vv : Update) : Prop :=
  ∃ hashedVal value, pubAndHashUpdates.hashUpdates.getUpdate ns coll
      (computeHash key) = some hashedVal ∧
    vv = .put value none hashedVal.version ∧
    computeHash value = hashedVal.value.getD []

variable {computeHash : Bytes → Bytes} {pubAndHashUpdates : PublicAndHashUpdates}

theorem getUpdate_incrementPvtdataVersion {db : DB}
    {batch post : PvtUpdateBatch} {ck : PvtdataCompositeKey}
    (htr : incrementPvtdataVersion computeHash pubAndHashUpdates db batch ck = .ok post)
    (hg : post.getUpdate ns coll key = some vv) :
    batch.getUpdate ns coll key = some vv ∨
      Renewed computeHash pubAndHashUpdates ns coll key vv := by
  unfold incrementPvtdataVersion at htr
  split at htr
  · cases htr
    exact .inl hg
  next hashedVal hh =>
    split at htr
    · cases htr
      exact .inl hg
    next =>
      split_ifs at htr with heq hmt
      · cases htr
        exact .inl hg
      · split at htr
        · cases htr
        next value hval =>
          cases htr
          rw [HashedUpdateBatch.getUpdate_update] at hg
          split_ifs at hg with hkey
          · obtain ⟨rfl, rfl, rfl⟩ := hkey
            rw [hval] at hmt
            exact .inr ⟨hashedVal, value, hh, (Option.some.inj hg).symm, hmt⟩
          · exact .inl hg
      · cases htr
        exact .inl hg

variable {codes : List TxValidationCode}

theorem writtenByTx_of_foldlM {blk : Block} {pvtdata : TxPvtDataMap}
    {collected : PvtUpdateBatch × MetadataUpdates}
    (hfl : (blk.txs.zip codes).foldlM (addTxPvtdata computeHash blk.num pvtdata)
      (SortedMap.empty, SortedMap.empty) = .ok collected)
    (hg : collected.1.getUpdate ns coll key = some vv) :
    WrittenByTx blk codes pvtdata ns coll key vv := by
  refine Except.foldlM_invariant (motive := fun rc =>
    rc.1.getUpdate ns coll key = some vv →
      WrittenByTx blk codes pvtdata ns coll key vv) hfl ?_ ?_ hg
  · intro hno
    cases hno
  intro _ tx _ htx htr hp haf
  unfold addTxPvtdata at htr
  split_ifs at htr with hcode hcontains
  · cases htr
    exact hp haf
  · cases htr
    exact hp haf
  split at htr
  · cases htr
    exact hp haf
  next txPvtdata hv =>
    obtain ⟨_, -, hpu⟩ := of_bind htr
    cases hpu
    rcases getUpdate_addPvtRWSet haf with hold | ⟨kvwrite, hwt⟩
    · exact hp hold
    · have hok : tx.2 = .valid := not_not.mp hcode
      exact ⟨tx.1, txPvtdata, kvwrite, hok ▸ htx, hv, hwt⟩

theorem getUpdate_validateAndPreparePvtBatch
    {blk : Block} {db : DB} {pvtdata : TxPvtDataMap} {pvtUpdates : PvtUpdateBatch}
    (hpp : validateAndPreparePvtBatch computeHash blk codes db
      pubAndHashUpdates pvtdata = .ok pvtUpdates)
    (hg : pvtUpdates.getUpdate ns coll key = some vv) :
    WrittenByTx blk codes pvtdata ns coll key vv ∨
      Renewed computeHash pubAndHashUpdates ns coll key vv := by
  obtain ⟨_, hfl, hin⟩ := of_bind hpp
  refine Except.foldlM_invariant (motive := fun rc : PvtUpdateBatch =>
    rc.getUpdate ns coll key = some vv → _) hin ?_ ?_ hg
  · exact fun hwr => .inl (writtenByTx_of_foldlM hfl hwr)
  · intro _ _ _ _ htr hp haf
    rcases getUpdate_incrementPvtdataVersion htr haf with hold | hrenewed
    · exact hp hold
    · exact .inr hrenewed

end FabricSequencer
