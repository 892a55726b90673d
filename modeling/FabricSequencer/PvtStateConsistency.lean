import FabricSequencer.LockBasedTxMgr

/-!
# Private state and the committed hashes

A private value is returned to a chaincode if it has the version of the hashed
key.  This is enough for it to match the hash, since every version of a hashed
key stems from the transaction of that height, and a private key gets the
version either with that transaction's write or after a comparison of the
hashes.
-/

namespace FabricSequencer

open Pvtdatastorage (TxPvtData)
open Pvtstatepurgemgmt List Option PublicAndHashUpdates HashedUpdateBatch TxValidationCode
  TxMgrWorld

variable (computeHash hash : Bytes → Bytes)

def writeKey (write : GoString × GoString × KVWrite) : CompositeKey :=
  ⟨write.1, write.2.1, computeHash write.2.2.key⟩

def HashesWrite (rwset : TxRwSet) (write : GoString × GoString × KVWrite) : Prop :=
  ∃ nsRWSet ∈ rwset.nsRwSets, nsRWSet.nameSpace = write.1 ∧
    ∃ coll ∈ nsRWSet.collHashedRwSets, coll.collectionName = write.2.1 ∧ coll.collectionName ≠ [] ∧
      ∃ hashedWrite ∈ coll.hashedRwSet.hashedWrites,
        hashedWrite.keyHash = computeHash write.2.2.key ∧
        hashedWrite.isDelete = write.2.2.isDelete ∧
        (hashedWrite.isDelete = false → hashedWrite.valueHash = computeHash write.2.2.value)

def MatchesHashes (rwset : TxRwSet) (pvtdata : TxPvtData) : Prop :=
  SingleWrites rwset ∧ ∀ write ∈ pvtdata.kvWrites, HashesWrite computeHash rwset write

def WrittenAs (rwset : TxRwSet) (ck : CompositeKey) (value : Bytes) : Prop :=
  ∀ write ∈ rwset.writesAt ck, ∀ written, write.value = some written → written = some value

variable {rwset : TxRwSet}

theorem mem_writesAt_of_hashedWrite {nsRWSet : NsRwSet}
    {coll : CollHashedRwSet} {hashedWrite : KVWriteHash} (hns : nsRWSet ∈ rwset.nsRwSets)
    (hco : coll ∈ nsRWSet.collHashedRwSets) (hwt : hashedWrite ∈ coll.hashedRwSet.hashedWrites) :
    hashedWrite.toKVWrite.keyWrite ∈ rwset.writesAt
      ⟨nsRWSet.nameSpace, coll.collectionName, hashedWrite.keyHash⟩ := by
  refine mem_map.mpr ⟨(⟨nsRWSet.nameSpace, coll.collectionName,
    hashedWrite.keyHash⟩, hashedWrite.toKVWrite.keyWrite),
    mem_filter.mpr ⟨?_, by simp⟩, rfl⟩
  refine mem_flatMap.mpr ⟨nsRWSet, hns, ?_⟩
  refine mem_append_right _ (mem_flatMap.mpr ⟨coll, hco, ?_⟩)
  refine mem_append_left _ (mem_map.mpr ⟨hashedWrite.toKVWrite, ?_, rfl⟩)
  exact mem_map.mpr ⟨hashedWrite, hwt, rfl⟩

theorem eq_computeHash_of_writtenAs {hash : Bytes → Bytes} {w : GoString × GoString × KVWrite}
    {value : Bytes} (hh : HashesWrite hash rwset w) (hl : isKVWriteDelete w.2.2 = false)
    (hwr : WrittenAs rwset (writeKey hash w) value) : hash w.2.2.value = value := by
  obtain ⟨nsRWSet, hns, hnm, coll, hco, hc, -, hashedWrite, hm, hk, his, hval⟩ := hh
  have hwt := mem_writesAt_of_hashedWrite hns hco hm
  rw [hnm, hc, hk] at hwt
  simp only [isKVWriteDelete, Bool.or_eq_false_iff] at hl
  have hhs := hval (his.trans hl.1)
  have hp := hwr _ hwt
  simp only [KVWrite.keyWrite] at hp
  split_ifs at hp with hd
  · exact absurd (hp none rfl) (by simp)
  · have heq := some.inj (hp (some hashedWrite.toKVWrite.value) rfl)
    rw [← hhs, ← heq]
    rfl

/-! ## The hashed updates of a block -/

theorem getUpdate_nil_setUpdate (u : PublicAndHashUpdates) (ck : CompositeKey)
    (vv : Update) (ns keyHash : GoString) :
    (u.setUpdate ck vv).hashUpdates.getUpdate ns [] keyHash =
      u.hashUpdates.getUpdate ns [] keyHash := by
  unfold setUpdate
  split_ifs with hcoll
  · rfl
  · dsimp only
    rw [getUpdate_update]
    have hne : ([] : GoString) ≠ ck.coll := Ne.symm hcoll
    simp [hne]

variable {ht : Height} {u after : PublicAndHashUpdates}

theorem getUpdate_nil_applyTxOps (ns keyHash : GoString)
    {txops : List (CompositeKey × KeyOps)} (haf : applyTxOps ht u txops = .ok after) :
    after.hashUpdates.getUpdate ns [] keyHash = u.hashUpdates.getUpdate ns [] keyHash := by
  induction txops generalizing u with
  | nil =>
    cases haf
    rfl
  | cons _ _ ih =>
    obtain ⟨_, -, hrs⟩ := applyTxOps_cons_eq_ok_iff.mp haf
    rw [ih hrs, getUpdate_nil_setUpdate]

variable {ns coll keyHash : GoString}

theorem updateAt_hashed (u : PublicAndHashUpdates) (hco : coll ≠ []) :
    u.updateAt ⟨ns, coll, keyHash⟩ = u.hashUpdates.getUpdate ns coll keyHash := by
  simp [updateAt, CompositeKey.space, hco, changes, getUpdate, UpdateBatch.getUpdate]

variable {db : DB} {vv : Update}

theorem hashUpdate_applyWriteSet {containsPostOrderWrites : Bool}
    (haf : applyWriteSet u rwset ht db containsPostOrderWrites = .ok after)
    (hg : after.hashUpdates.getUpdate ns coll keyHash = some vv) :
    u.hashUpdates.getUpdate ns coll keyHash = some vv ∨
      coll ≠ [] ∧ rwset.writesAt ⟨ns, coll, keyHash⟩ ≠ [] ∧
        mergedUpdate u db ht ⟨ns, coll, keyHash⟩
          (rwset.writesAt ⟨ns, coll, keyHash⟩) = some (some vv) := by
  by_cases hco : coll = []
  · subst hco
    left
    rw [← getUpdate_nil_applyTxOps ns keyHash haf] at *
    exact hg
  rw [← updateAt_hashed _ hco, updateAt_applyWriteSet haf, get_prepareTxOps] at hg
  rw [← updateAt_hashed _ hco]
  split_ifs at hg with hn
  · left
    simpa using hg
  have hjn : (mergeLatest u db ⟨ns, coll, keyHash⟩ (newKeyOps.recordAll
      (rwset.writesAt ⟨ns, coll, keyHash⟩))).bind (KeyOps.toUpdate ht) =
      (mergedUpdate u db ht ⟨ns, coll, keyHash⟩ (rwset.writesAt ⟨ns, coll, keyHash⟩)).join := by
    unfold mergedUpdate
    cases mergeLatest u db ⟨ns, coll, keyHash⟩ (newKeyOps.recordAll
      (rwset.writesAt ⟨ns, coll, keyHash⟩)) <;> rfl
  rw [hjn] at hg
  cases hmrg : mergedUpdate u db ht ⟨ns, coll, keyHash⟩ (rwset.writesAt ⟨ns, coll, keyHash⟩) with
  | none =>
    left
    simpa [hmrg] using hg
  | some merged =>
    cases merged with
    | none =>
      left
      simpa [hmrg] using hg
    | some =>
      right
      rw [hmrg] at hg
      cases hg
      exact ⟨hco, hn, rfl⟩

variable {writes : List KeyWrite}

theorem eq_of_findSome_value (hsn : writes.countP (fun w => w.value.isSome) ≤ 1)
    {w : KeyWrite} (hwt : w ∈ writes) {wr found : Option Bytes} (hval : w.value = some wr)
    (hg : writes.findSome? KeyWrite.value = some found) : wr = found := by
  induction writes with
  | nil => cases hwt
  | cons first tl ih =>
    rw [countP_cons] at hsn
    rcases hf : first.value with _ | _
    · rw [List.findSome?_cons, hf] at hg
      rcases mem_cons.mp hwt with rfl | hrest
      · rw [hf] at hval
        cases hval
      · exact ih (le_trans (Nat.le_add_right _ _) hsn) hrest hg
    rw [List.findSome?_cons, hf] at hg
    cases hg
    rcases mem_cons.mp hwt with rfl | hrest
    · rw [hf] at hval
      exact (some.inj hval).symm
    have hno : tl.countP (fun w => w.value.isSome) = 0 := by
      simp only [hf, isSome_some, if_true] at hsn
      omega
    have hun := countP_eq_zero.mp hno w hrest
    simp [hval] at hun

variable {u : PublicAndHashUpdates}

theorem writtenAs_of_mergedUpdate {ht ver : Height} {ck : CompositeKey}
    {value : Bytes} {md : Option Bytes} (hne : rwset.writesAt ck ≠ [])
    (hm : mergedUpdate u db ht ck (rwset.writesAt ck) = some (some (.put value md ver)))
    (hsn : SingleWrites rwset) : WrittenAs rwset ck value := by
  rw [mergedUpdate_eq u db ht ck hne (hsn ck).1 (hsn ck).2] at hm
  intro w hwt _ hval
  cases hg : (rwset.writesAt ck).findSome? KeyWrite.value with
  | none =>
    have hno := List.findSome?_eq_none_iff.mp hg w hwt
    rw [hno] at hval
    cases hval
  | some f =>
    have heq := eq_of_findSome_value (hsn ck).1 hwt hval hg
    rw [heq]
    rw [hg] at hm
    cases f with
    | none => cases hm
    | some =>
      rcases hmt : (rwset.writesAt ck).findSome? KeyWrite.metadata with _ | _
      all_goals
        rw [hmt] at hm
        cases hm
        rfl

theorem version_of_mergedUpdate {ck : CompositeKey}
    (hm : mergedUpdate u db ht ck writes = some (some vv)) : vv.version = ht := by
  unfold mergedUpdate at hm
  obtain ⟨_, -, htp⟩ := map_eq_some_iff.mp hm
  unfold KeyOps.toUpdate at htp
  split_ifs at htp
  · rw [← some.inj htp]
    rfl
  · obtain ⟨_, -, hp⟩ := map_eq_some_iff.mp htp
    rw [← hp]
    rfl

variable {hashFunc : Bytes → Bytes} {doMVCCValidation : Bool}

theorem hashUpdate_prepareAll {num : ℕ} {txs : List Transaction}
    {pp fn : Prepared} {cds : List TxValidationCode}
    (ha : prepareAll hashFunc db num doMVCCValidation pp txs = .ok (fn, cds))
    (hg : fn.updates.hashUpdates.getUpdate ns coll keyHash = some vv) :
    pp.updates.hashUpdates.getUpdate ns coll keyHash = some vv ∨
      coll ≠ [] ∧ ∃ tx, (tx, valid) ∈ txs.zip cds ∧ vv.version = ⟨num, tx.indexInBlock⟩ ∧
        ∀ value, vv.value = some value → SingleWrites tx.rwset →
          WrittenAs tx.rwset ⟨ns, coll, keyHash⟩ value := by
  induction txs generalizing pp cds with
  | nil =>
    cases ha
    exact .inl hg
  | cons tx _ ih =>
    obtain ⟨_, code, _, hnx, hrs, rfl⟩ := prepareAll_cons_eq_ok_iff.mp ha
    rcases ih hrs with hpre | ⟨hco, lt, hl, hmd⟩
    · by_cases hcd : code = .valid
      · subst hcd
        rcases hashUpdate_applyWriteSet (prepareNext_valid hnx) hpre with hold | ⟨hco, hne, hm⟩
        · exact .inl hold
        refine .inr ⟨hco, tx, mem_cons_self, version_of_mergedUpdate hm, ?_⟩
        intro _ hval hsn
        cases vv with
        | put =>
          cases hval
          exact writtenAs_of_mergedUpdate hne hm hsn
        | delete => cases hval
      · rw [prepareNext_invalid hnx hcd] at hpre
        exact .inl hpre
    · exact .inr ⟨hco, lt, mem_cons_of_mem _ hl, hmd⟩

section Consistency

variable {computeHash hash : Bytes → Bytes}

def StemsFrom (rwset : Option TxRwSet) (ck : CompositeKey) (value : Bytes) : Prop :=
  ∃ written, rwset = some written ∧ (SingleWrites written → WrittenAs written ck value)

structure DBConsistent (computeHash : Bytes → Bytes)
    (history : Height → Option TxRwSet) (height : ℕ) (db : DB) : Prop where
  hashed : ∀ {ns coll keyHash vv},
    db.getValueHash ns coll keyHash = some vv →
      vv.version.blockNum < height ∧ StemsFrom (history vv.version) ⟨ns, coll, keyHash⟩ vv.value
  pvt : ∀ {ns coll key vv}, db.getPrivateData ns coll key = some vv → vv.version.blockNum < height
  matching : ∀ {ns coll key pvt hashed}, db.getPrivateData ns coll key = some pvt →
    db.getValueHash ns coll (computeHash key) = some hashed →
    pvt.version = hashed.version → computeHash pvt.value = hashed.value

structure BatchConsistent (computeHash : Bytes → Bytes)
    (rwsetOf : ℕ → Option TxRwSet) (num : ℕ) (batch : PrivacyUpdateBatch) :
    Prop where
  hashed : ∀ {ns coll keyHash value metadata version},
    batch.pubAndHashUpdates.hashUpdates.getUpdate ns coll keyHash =
      some (.put value metadata version) →
      version.blockNum = num ∧ StemsFrom (rwsetOf version.txNum) ⟨ns, coll, keyHash⟩ value
  pvt : ∀ {ns coll key value metadata version},
    batch.pvtUpdates.getUpdate ns coll key =
      some (.put value metadata version) → version.blockNum = num
  matching : ∀ {ns coll key value metadata version hash hashMetadata},
    batch.pvtUpdates.getUpdate ns coll key = some (.put value metadata version) →
    batch.pubAndHashUpdates.hashUpdates.getUpdate ns coll (computeHash key) =
      some (.put hash hashMetadata version) → computeHash value = hash

def PutsWithin (after before : HashedUpdateBatch) : Prop :=
  ∀ ns coll key value metadata version,
    after.getUpdate ns coll key = some (.put value metadata version) →
      before.getUpdate ns coll key = some (.put value metadata version)

theorem putsWithin_update_delete (batch : HashedUpdateBatch) (ns coll key : GoString)
    (ver : Height) : PutsWithin (batch.update ns coll key (.delete ver)) batch := by
  intro _ _ _ _ _ _ hg
  rw [getUpdate_update] at hg
  split_ifs at hg with heq
  · cases hg
  · exact hg

theorem putsWithin_foldl {α : Type} {turn : HashedUpdateBatch → α → HashedUpdateBatch}
    (htr : ∀ batch it, PutsWithin (turn batch it) batch)
    (its : List α) (batch : HashedUpdateBatch) : PutsWithin (its.foldl turn batch) batch := by
  induction its generalizing batch with
  | nil => exact fun _ _ _ _ _ _ hg => hg
  | cons it _ ih =>
    intro ns coll key value md ver hg
    exact htr batch it ns coll key value md ver (ih (turn batch it) ns coll key value md ver hg)

variable {rwsetOf : ℕ → Option TxRwSet} {num : ℕ}

theorem BatchConsistent.of_putsWithin
    {batch after : PrivacyUpdateBatch} (hbt : BatchConsistent hash rwsetOf num batch)
    (hh : PutsWithin after.pubAndHashUpdates.hashUpdates batch.pubAndHashUpdates.hashUpdates)
    (hp : PutsWithin after.pvtUpdates batch.pvtUpdates) :
    BatchConsistent hash rwsetOf num after where
  hashed hget := hbt.hashed (hh _ _ _ _ _ _ hget)
  pvt hget := hbt.pvt (hp _ _ _ _ _ _ hget)
  matching hput hhash := hbt.matching (hp _ _ _ _ _ _ hput) (hh _ _ _ _ _ _ hhash)

variable {batch : PrivacyUpdateBatch}

theorem batchConsistent_purgeKeys (ks : PvtKeysToPurge)
    (hbt : BatchConsistent hash rwsetOf num batch) :
    BatchConsistent hash rwsetOf num (purgeAppInitiatedPvtKeys batch ks) := by
  refine hbt.of_putsWithin (fun _ _ _ _ _ _ hg => hg) (putsWithin_foldl ?_ _ _)
  intro _ _
  unfold purgeAppInitiatedPvtKey
  dsimp only
  split
  · exact putsWithin_update_delete _ _ _ _ _
  · split_ifs
    · exact putsWithin_update_delete _ _ _ _ _
    · exact fun _ _ _ _ _ _ hg => hg

theorem batchConsistent_addExpired (workingset : WorkingSet)
    (hbt : BatchConsistent hash rwsetOf num batch) :
    BatchConsistent hash rwsetOf num (addExpiredEntriesToUpdateBatch workingset batch) := by
  refine hbt.of_putsWithin (putsWithin_foldl ?_ _ _) (putsWithin_foldl ?_ _ _)
  · intro _ _
    unfold purgeHash
    split_ifs
    · exact putsWithin_update_delete _ _ _ _ _
    · exact fun _ _ _ _ _ _ hg => hg
  · intro _ _
    unfold purgeKey
    split_ifs
    · exact putsWithin_update_delete _ _ _ _ _
    · exact fun _ _ _ _ _ _ hg => hg

theorem elim_resolve_eq_some {ch : Option Update} {held : Option VersionedValue}
    {vv : VersionedValue} (haf : ch.elim held Update.resolve = some vv) :
    ch = some (.put vv.value vv.metadata vv.version) ∨ ch = none ∧ held = some vv := by
  rcases ch with _ | ⟨_, _, _⟩ | _
  · exact .inr ⟨rfl, haf⟩
  · cases haf
    exact .inl rfl
  · cases haf

variable {db : DB} {history : Height → Option TxRwSet}

theorem dbConsistent_commit {height : ℕ} (hdb : DBConsistent hash history height db)
    (hbt : BatchConsistent hash rwsetOf height batch) :
    DBConsistent hash
      (fun ver => if ver.blockNum = height then rwsetOf ver.txNum
        else history ver)
      (height + 1) (db.applyPrivacyAwareUpdates batch) where
  hashed := by
    intro _ _ _ _ hg
    rw [DB.getValueHash_applyPrivacyAwareUpdates] at hg
    rcases elim_resolve_eq_some hg with hput | ⟨-, hl⟩
    · obtain ⟨hn, hst⟩ := hbt.hashed hput
      rw [if_pos hn]
      exact ⟨by omega, hst⟩
    · obtain ⟨hlt, hst⟩ := hdb.hashed hl
      rw [if_neg hlt.ne]
      exact ⟨by omega, hst⟩
  pvt := by
    intro _ _ _ _ hg
    rw [DB.getPrivateData_applyPrivacyAwareUpdates] at hg
    rcases elim_resolve_eq_some hg with hput | ⟨-, hl⟩
    · have hn := hbt.pvt hput
      omega
    · have hlt := hdb.pvt hl
      omega
  matching := by
    intro _ _ _ _ _ hp hh hv
    rw [DB.getPrivateData_applyPrivacyAwareUpdates] at hp
    rw [DB.getValueHash_applyPrivacyAwareUpdates] at hh
    -- A ver of this block never equals one of an earlier block.
    rcases elim_resolve_eq_some hp with hput | ⟨-, hl⟩ <;>
      rcases elim_resolve_eq_some hh with hhash | ⟨-, hhl⟩
    · rw [← hv] at hhash
      exact hbt.matching hput hhash
    · have hn := hbt.pvt hput
      have hlt := (hdb.hashed hhl).1
      rw [hv] at hn
      omega
    · have hlt := hdb.pvt hl
      have hn := (hbt.hashed hhash).1
      rw [hv] at hlt
      omega
    · exact hdb.matching hl hhl hv

structure BlockFits (computeHash : Bytes → Bytes) (blk : Block)
    (pvtdata : TxPvtDataMap) : Prop where
  increasing : blk.txs.Pairwise fun tx later =>
    tx.indexInBlock < later.indexInBlock
  belongs : ∀ tx ∈ blk.txs, ∀ txPvtdata,
    pvtdata.get tx.indexInBlock = some txPvtdata → MatchesHashes computeHash tx.rwset txPvtdata

theorem validRwSet_eq_some {cur : CurrentUpdates} {tx : Transaction}
    (hin : cur.block.txs.Pairwise fun tx lt =>
      tx.indexInBlock < lt.indexInBlock)
    (htx : (tx, valid) ∈ cur.block.txs.zip cur.prepared.codes) :
    cur.validRwSet tx.indexInBlock = some tx.rwset := by
  unfold CurrentUpdates.validRwSet
  generalize cur.block.txs = txs at hin htx
  generalize cur.prepared.codes = cds at htx
  induction txs generalizing cds with
  | nil => simp at htx
  | cons first _ ih =>
    cases cds with
    | nil => simp at htx
    | cons _ cds =>
      rw [pairwise_cons] at hin
      rw [zip_cons_cons, List.find?_cons]
      rcases mem_cons.mp htx with hf | hrest
      · cases hf
        simp
      · have hl := hin.1 tx (of_mem_zip hrest).1
        have hne : ¬ first.indexInBlock = tx.indexInBlock := by omega
        simp only [hne, decide_false, Bool.and_false]
        exact ih hin.2 cds hrest

theorem batchConsistent_prepareBlock
    {blk : Block} {pvtdata : TxPvtDataMap} {prepared : PreparedBlock}
    (hpp : prepareBlock hashFunc computeHash db blk pvtdata doMVCCValidation = .ok prepared)
    (hft : BlockFits computeHash blk pvtdata) :
    BatchConsistent computeHash (CurrentUpdates.validRwSet { block := blk, prepared := prepared })
      blk.num prepared.batch := by
  obtain ⟨⟨made, codes⟩, hall, hrest⟩ := of_bind hpp
  obtain ⟨pvtUpdates, hpv, hpu⟩ := of_bind hrest
  cases hpu
  have hmd : ∀ {ns coll keyHash vv}, made.updates.hashUpdates.getUpdate ns coll keyHash = some vv →
      ∃ tx, (tx, valid) ∈ blk.txs.zip codes ∧ vv.version = ⟨blk.num, tx.indexInBlock⟩ ∧
        ∀ value, vv.value = some value → SingleWrites tx.rwset →
          WrittenAs tx.rwset ⟨ns, coll, keyHash⟩ value := by
    intro _ _ _ _ hg
    rcases hashUpdate_prepareAll hall hg with hno | ⟨-, hst⟩
    · cases hno
    · exact hst
  have hok := fun tx => @validRwSet_eq_some ⟨blk,
    { batch := { pubAndHashUpdates := made.updates, pvtUpdates := pvtUpdates }
      purgeUpdates := made.purgeTracker
      codes := codes }⟩ tx hft.increasing
  refine ⟨?_, ?_, ?_⟩
  · intro _ _ _ value _ _ hg
    obtain ⟨tx, htx, hv, hwr⟩ := hmd hg
    cases hv
    exact ⟨rfl, tx.rwset, hok tx htx, hwr value rfl⟩
  · intro _ _ _ _ _ _ hg
    rcases getUpdate_validateAndPreparePvtBatch hpv hg with
      ⟨tx, txPvtdata, kvwrite, -, -, -, -, hu⟩ | ⟨hashedVal, renewed, hh, hr, -⟩
    · unfold KVWrite.pvtUpdate at hu
      split_ifs at hu
      cases hu
      rfl
    · cases hr
      obtain ⟨_, -, hv, -⟩ := hmd hh
      rw [hv]
  · intro _ _ _ _ _ ver hash _ hg hhs
    rcases getUpdate_validateAndPreparePvtBatch hpv hg with
      ⟨tx, txPvtdata, kvwrite, htx, hp, hwt, hk, hu⟩ | ⟨hashedVal, renewed, hh, hr, heq⟩
    · unfold KVWrite.pvtUpdate at hu
      split_ifs at hu with hdelete
      cases hu
      obtain ⟨writer, hw, hv, hwr⟩ := hmd hhs
      -- The hashed update has the ver of the private one, so both are
      -- from the same transaction.
      have hi : tx.indexInBlock = writer.indexInBlock := congrArg Height.txNum hv
      have hrw := (hok writer hw).symm.trans (hi ▸ hok tx htx)
      obtain ⟨hsn, hs⟩ := hft.belongs tx (of_mem_zip htx).1 txPvtdata hp
      rw [some.inj hrw] at hwr
      subst hk
      exact eq_computeHash_of_writtenAs (hs _ hwt)
        (Bool.eq_false_of_not_eq_true hdelete) (hwr hash rfl hsn)
    · cases hr
      rw [hh] at hhs
      rw [some.inj hhs] at heq
      exact heq

theorem dbConsistent_oldBlocks {height : ℕ} {reconciledPvtdata : ReconciledPvtdata}
    (hdb : DBConsistent hash history height db)
    (hn : ∀ block ∈ reconciledPvtdata.entries, ∀ txPvtData ∈ block.2,
      ∃ rwset, history ⟨block.1, txPvtData.seqInBlock⟩ = some rwset ∧
        MatchesHashes hash rwset txPvtData) :
    DBConsistent hash history height
      (db.applyPrivacyAwareUpdates (.ofPvt (oldBlockUpdates hash db reconciledPvtdata))) := by
  have hun : ∀ ns coll keyHash,
      (db.applyPrivacyAwareUpdates
        (.ofPvt (oldBlockUpdates hash db reconciledPvtdata))).getValueHash ns coll keyHash =
        db.getValueHash ns coll keyHash := by
    intro _ _ _
    rw [DB.getValueHash_applyPrivacyAwareUpdates]
    rfl
  -- A w that is put has the version of the hashed key and matches it.
  have hp : ∀ {ns coll key value md version},
      (oldBlockUpdates hash db reconciledPvtdata).getUpdate ns coll
        key = some (.put value md version) →
      ∃ vv, db.getValueHash ns coll (hash key) = some vv ∧
        vv.version = version ∧ hash value = vv.value := by
    intro _ _ _ _ _ _ hg
    obtain ⟨ck, delivered, committed, rfl, rfl, rfl, hdl, hsl, hu⟩ := getUpdate_oldBlockUpdates hg
    obtain ⟨block, hb, txPvtData, htx, w, hwt, rfl, rfl⟩ := hdl
    unfold PvtKVWrite.update at hu
    split_ifs at hu with hdelete
    cases hu
    unfold checkIfPvtWriteIsStale at hsl
    dsimp only at hsl ⊢
    split at hsl
    · split_ifs at hsl with hisDelete
      cases hsl
      exact absurd hisDelete hdelete
    next vv hvv =>
      split_ifs at hsl with heq hval
      · cases hsl
        rw [areSame_iff] at heq
        have hv := some.inj heq
        refine ⟨vv, hvv, hv, ?_⟩
        obtain ⟨_, hrw, hsn, hs⟩ := hn block hb txPvtData htx
        obtain ⟨-, _, hwr, hst⟩ := hdb.hashed hvv
        rw [hv, hrw] at hwr
        cases hwr
        exact eq_computeHash_of_writtenAs (hs w hwt)
          (Bool.eq_false_of_not_eq_true hdelete) (hst hsn)
      · cases hsl
        exact ⟨vv, hvv, rfl, hval.symm⟩
  refine ⟨?_, ?_, ?_⟩
  · intro _ _ _ _ hg
    rw [hun] at hg
    exact hdb.hashed hg
  · intro _ _ _ _ hg
    rw [DB.getPrivateData_applyPrivacyAwareUpdates] at hg
    rcases elim_resolve_eq_some hg with hnew | ⟨-, hl⟩
    · obtain ⟨_, hh, hv, -⟩ := hp hnew
      rw [← hv]
      exact (hdb.hashed hh).1
    · exact hdb.pvt hl
  · intro _ _ _ _ _ ht hh hv
    rw [hun] at hh
    rw [DB.getPrivateData_applyPrivacyAwareUpdates] at ht
    rcases elim_resolve_eq_some ht with hnew | ⟨-, hl⟩
    · obtain ⟨_, hfn, -, hmt⟩ := hp hnew
      rw [hh] at hfn
      cases hfn
      exact hmt
    · exact hdb.matching hl hh hv

end Consistency

section Runs

variable {config : TxMgrConfig}

/-- Blocks come in order, and the private write sets that enter belong to
transactions: of the block, or valid ones of old blocks. -/
def TxMgrEvent.WellFormed (config : TxMgrConfig) (world : TxMgrWorld) : TxMgrEvent → Prop
  | .validateAndPrepare blk pvtdata _ =>
    blk.num = world.height ∧ BlockFits config.computeHash blk pvtdata
  | .oldBlocks reconciledPvtdata =>
    ∀ block ∈ reconciledPvtdata.entries, ∀ txPvtData ∈ block.2,
      ∃ rwset, world.history ⟨block.1, txPvtData.seqInBlock⟩ = some rwset ∧
        MatchesHashes config.computeHash rwset txPvtData
  | _ => True

structure TxMgrWorldFits (config : TxMgrConfig) (world : TxMgrWorld) : Prop where
  db : DBConsistent config.computeHash world.history world.height world.txmgr.db
  current : ∀ current, world.txmgr.currentUpdates = some current →
    BatchConsistent config.computeHash current.validRwSet world.height current.prepared.batch

def newTxMgr : TxMgr where
  db := emptyDB
  pvtdataPurgeMgr := { expKeeper := SortedMap.empty, workingset := none }
  usedOnce := false
  currentUpdates := none

def newTxMgrWorld : TxMgrWorld where
  txmgr := newTxMgr
  height := 0
  history _ := none

theorem txMgrWorldFits_new : TxMgrWorldFits config newTxMgrWorld where
  db :=
    { hashed := fun hg => by cases hg
      pvt := fun hg => by cases hg
      matching := fun hg => by cases hg }
  current := fun _ hc => by cases hc

variable {w : TxMgrWorld}

theorem txMgrWorldFits_restarted (hft : TxMgrWorldFits config w) :
    TxMgrWorldFits config { w with txmgr := w.txmgr.restarted } where
  db := hft.db
  current := fun _ hc => by cases hc

theorem txMgrWorldFits_commit {txmgr : TxMgr} (hc : w.txmgr.commit config = .ok txmgr)
    (hft : TxMgrWorldFits config w) :
    TxMgrWorldFits config
      { txmgr := txmgr
        height := w.height + 1
        history := w.recordBlock } := by
  unfold TxMgr.commit at hc
  split at hc
  · cases hc
  next cur hr =>
    have hbt := hft.current cur hr
    obtain ⟨_, -, hrs⟩ := of_bind hc
    split at hrs
    · cases hrs
    next workingset _ =>
      cases hrs
      refine ⟨?_, fun _ hno => by cases hno⟩
      have haf := dbConsistent_commit hft.db (batchConsistent_addExpired workingset hbt)
      have hh : w.recordBlock = fun version =>
          if version.blockNum = w.height then
            cur.validRwSet version.txNum
          else w.history version := by
        funext version
        unfold recordBlock
        rw [hr]
        rfl
      dsimp only
      rw [hh]
      exact haf

theorem txMgrWorldFits_step {ev : TxMgrEvent} (hwl : ev.WellFormed config w)
    (hft : TxMgrWorldFits config w) : TxMgrWorldFits config (w.step config ev) := by
  cases ev with
  | validateAndPrepare =>
    obtain ⟨hn, hb⟩ := hwl
    dsimp only [step]
    split
    next hpp =>
      obtain ⟨_, hr, hpu⟩ := of_bind hpp
      cases hpu
      refine ⟨hft.db, ?_⟩
      intro _ hc
      cases hc
      rw [← hn]
      exact batchConsistent_prepareBlock hr hb
    · exact txMgrWorldFits_restarted hft
  | purgeKeys ks =>
    refine ⟨hft.db, ?_⟩
    intro _ hc
    obtain ⟨pre, hp, rfl⟩ := map_eq_some_iff.mp hc
    exact batchConsistent_purgeKeys ks (hft.current pre hp)
  | commit =>
    dsimp only [step]
    split
    next hm => exact txMgrWorldFits_commit hm hft
    · exact txMgrWorldFits_restarted hft
  | oldBlocks =>
    dsimp only [step]
    split
    next hl =>
      unfold TxMgr.removeStaleAndCommitPvtDataOfOldBlocks at hl
      split_ifs at hl
      · cases hl
        exact hft
      · obtain ⟨_, -, hpu⟩ := of_bind hl
        cases hpu
        exact ⟨dbConsistent_oldBlocks hft.db hwl, hft.current⟩
    · exact hft
    · exact txMgrWorldFits_restarted hft
  | restart => exact txMgrWorldFits_restarted hft

def WellFormedRun (config : TxMgrConfig) (world : TxMgrWorld) (events : List TxMgrEvent) : Prop :=
  ∀ (n : ℕ) (event : TxMgrEvent), events[n]? = some event →
    event.WellFormed config (world.run config (events.take n))

theorem txMgrWorldFits_run {evs : List TxMgrEvent} (hwl : WellFormedRun config w evs)
    (hft : TxMgrWorldFits config w) : TxMgrWorldFits config (w.run config evs) := by
  induction evs generalizing w with
  | nil => exact hft
  | cons ev _ ih =>
    refine ih ?_ (txMgrWorldFits_step (hwl 0 ev rfl) hft)
    intro n lt hl
    exact hwl (n + 1) lt hl

theorem getPrivateData_eq_ok {env : SimEnv} {ns coll key : GoString} {s s' : TxSimulator}
    {r : Option Bytes} (hca : TxSimulator.getPrivateData env ns coll key s = .ok r s') :
    r = (env.db.getPrivateData ns coll key).map VersionedValue.value ∧
      env.db.getKeyHashVersion ns coll (env.computeHash key) =
        (env.db.getPrivateData ns coll key).map VersionedValue.version := by
  unfold TxSimulator.getPrivateData at hca
  rw [StateCall.bind_eq] at hca
  split at hca
  next =>
    dsimp only at hca
    split_ifs at hca with heq
    · cases hca
    · have hv := heq
      simp only [Bool.not_eq_true', Bool.not_eq_false, areSame_iff] at hv
      cases hca
      exact ⟨rfl, hv⟩
  · cases hca

/-- In every state that a run reaches, a private entry with the version of its
hashed entry matches the hash, and `GetPrivateData` returns a value only if it
matches the committed hash. -/
theorem pvtState_matches_hashes {events : List TxMgrEvent}
    (hwellFormed : WellFormedRun config newTxMgrWorld events) :
    (∀ ns coll key pvt hashed,
      (newTxMgrWorld.run config events).txmgr.db.getPrivateData ns coll key = some pvt →
      (newTxMgrWorld.run config events).txmgr.db.getValueHash ns coll
        (config.computeHash key) = some hashed →
      pvt.version = hashed.version → config.computeHash pvt.value = hashed.value) ∧
    ∀ (env : SimEnv) ns coll key value s s', env.db = (newTxMgrWorld.run config events).txmgr.db →
      env.computeHash = config.computeHash →
      TxSimulator.getPrivateData env ns coll key s = .ok (some value) s' →
      ∃ hashed, env.db.getValueHash ns coll (env.computeHash key) =
        some hashed ∧ env.computeHash value = hashed.value := by
  have hft := txMgrWorldFits_run hwellFormed txMgrWorldFits_new
  constructor
  · intro _ _ _ _ _ hpvt hhsh hver
    exact hft.db.matching hpvt hhsh hver
  intro _ _ _ _ _ _ _ hdb hhs hca
  obtain ⟨hval, hver⟩ := getPrivateData_eq_ok hca
  obtain ⟨_, hpvt, rfl⟩ := map_eq_some_iff.mp hval.symm
  rw [hpvt] at hver
  obtain ⟨hashed, hhsh, heq⟩ := map_eq_some_iff.mp hver
  refine ⟨hashed, hhsh, ?_⟩
  rw [hdb] at hpvt hhsh
  rw [hhs] at hhsh ⊢
  exact hft.db.matching hpvt hhsh heq.symm

/-- A manager whose hash function puts a byte in front, with collections whose
data lives for one block. -/
def samplePvtConfig : TxMgrConfig where
  hashFunc bytes := 0 :: bytes
  computeHash bytes := 0 :: bytes
  btlPolicy := { getBTL := fun _ _ => .ok 1 }

def samplePvtWriteSet (value : Bytes) : KVRWSet :=
  { reads := [], rangeQueriesInfo := []
    writes := [{ key := ascii "k", isDelete := value.isEmpty, value := value }]
    metadataWrites := [] }

def samplePvtRwSet (value : Bytes) : TxRwSet where
  nsRwSets :=
    [{ nameSpace := ascii "cc"
       kvRwSet :=
         { reads := [], rangeQueriesInfo := [], writes := []
           metadataWrites := [] }
       collHashedRwSets :=
         [{ collectionName := ascii "c"
            hashedRwSet :=
              { hashedReads := []
                hashedWrites :=
                  [{ keyHash := 0 :: ascii "k", isDelete := value.isEmpty
                     valueHash := if value.isEmpty then [] else 0 :: value
                     isPurge := false }]
                metadataWrites := [] }
            pvtRwSetHash := some (0 :: marshalKVRWSet (samplePvtWriteSet value)) }] }]

def samplePvtData (txNum : ℕ) (value : Bytes) : TxPvtData where
  seqInBlock := txNum
  nsPvtRwset :=
    [{ nameSpace := ascii "cc"
       collectionPvtRwset :=
         [{ collectionName := ascii "c", kvRwSet := samplePvtWriteSet value }] }]

def samplePvtTx (txNum : ℕ) (value : Bytes) : Transaction where
  indexInBlock := txNum
  rwset := samplePvtRwSet value
  containsPostOrderWrites := false

def samplePvtEvents : List TxMgrEvent :=
  [.validateAndPrepare { num := 0, txs := [samplePvtTx 0 [7]] }
      (SortedMap.empty.insert 0 (samplePvtData 0 [7])) true,
    .commit]

theorem matchesHashes_sample :
    MatchesHashes samplePvtConfig.computeHash (samplePvtRwSet [7]) (samplePvtData 0 [7]) := by
  refine ⟨singleWrites_of_length (by decide), ?_⟩
  intro _ hwt
  rw [show (samplePvtData 0 [7]).kvWrites = [(ascii "cc", ascii "c",
    { key := ascii "k", isDelete := false, value := [7] })] from rfl,
    mem_singleton] at hwt
  subst hwt
  exact ⟨_, mem_singleton.mpr rfl, rfl, _, mem_singleton.mpr rfl, rfl,
    by decide, _, mem_singleton.mpr rfl, rfl, rfl, fun _ => rfl⟩

theorem wellFormedRun_sample : WellFormedRun samplePvtConfig newTxMgrWorld samplePvtEvents := by
  intro n _ hev
  match n with
  | 0 =>
    cases hev
    refine ⟨rfl, by simp, ?_⟩
    intro _ htx _ hp
    cases mem_singleton.mp htx
    cases hp
    exact matchesHashes_sample
  | 1 =>
    cases hev
    trivial
  | n + 2 => cases hev

theorem pvtState_matches_sample :
    (newTxMgrWorld.run samplePvtConfig samplePvtEvents).txmgr.db.getPrivateData
        (ascii "cc") (ascii "c") (ascii "k") = some ⟨[7], none, ⟨0, 0⟩⟩ ∧
      ∀ hashed,
        (newTxMgrWorld.run samplePvtConfig samplePvtEvents).txmgr.db.getValueHash
            (ascii "cc") (ascii "c") (0 :: ascii "k") = some hashed →
          hashed.version = ⟨0, 0⟩ → [0, 7] = hashed.value := by
  have hpvt : (newTxMgrWorld.run samplePvtConfig
      samplePvtEvents).txmgr.db.getPrivateData (ascii "cc") (ascii "c")
        (ascii "k") = some ⟨[7], none, ⟨0, 0⟩⟩ := by
    decide +kernel
  refine ⟨hpvt, fun hashed hhsh hver => ?_⟩
  exact (pvtState_matches_hashes wellFormedRun_sample).1 (ascii "cc")
    (ascii "c") (ascii "k") _ hashed hpvt hhsh hver.symm

end Runs

end FabricSequencer
