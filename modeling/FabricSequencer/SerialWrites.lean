import FabricSequencer.WriteSetApplication

/-!
# Write sets take effect one after the other

The writes of a write set to one key decide the update of that key, and the
updates of different keys do not interfere.
-/

namespace FabricSequencer

open SortedMap List Function PublicAndHashUpdates KeyOps CompositeKey UpdateBatch

/-! ## The writes to each key -/

def KVWrite.keyWrite (kvWrite : KVWrite) : KeyWrite :=
  if isKVWriteDelete kvWrite then .delete else .upsert kvWrite.value

def KVMetadataWrite.keyWrite (metadataWrite : KVMetadataWrite) : KeyWrite :=
  if metadataWrite.entries = [] then .metadataDelete
  else .metadataUpdate (serializeMetadata metadataWrite.entries)

variable (ns coll : GoString)

def keyWritesOf (writes : List KVWrite) (metadataWrites : List KVMetadataWrite) :
    List (CompositeKey × KeyWrite) :=
  (writes.map fun write => (⟨ns, coll, write.key⟩, write.keyWrite)) ++
    metadataWrites.map fun write => (⟨ns, coll, write.key⟩, write.keyWrite)

def CollHashedRwSet.keyWrites (ns : GoString)
    (collHashRWset : CollHashedRwSet) : List (CompositeKey × KeyWrite) :=
  keyWritesOf ns collHashRWset.collectionName
    (collHashRWset.hashedRwSet.hashedWrites.map KVWriteHash.toKVWrite)
    (collHashRWset.hashedRwSet.metadataWrites.map KVMetadataWriteHash.toKVMetadataWrite)

def NsRwSet.keyWrites (nsRWSet : NsRwSet) : List (CompositeKey × KeyWrite) :=
  keyWritesOf nsRWSet.nameSpace [] nsRWSet.kvRwSet.writes nsRWSet.kvRwSet.metadataWrites ++
    nsRWSet.collHashedRwSets.flatMap (CollHashedRwSet.keyWrites nsRWSet.nameSpace)

def TxRwSet.keyWrites (rwset : TxRwSet) : List (CompositeKey × KeyWrite) :=
  rwset.nsRwSets.flatMap NsRwSet.keyWrites

variable (txops : TxOps)

def TxOps.recordAll (writes : List (CompositeKey × KeyWrite)) : TxOps :=
  writes.foldl (fun txops write => txops.record write.1 write.2) txops

theorem TxOps.recordAll_append (first second : List (CompositeKey × KeyWrite)) :
    txops.recordAll (first ++ second) = (txops.recordAll first).recordAll second :=
  foldl_append

theorem TxOps.recordAll_flatMap {α : Type}
    (writesOf : α → List (CompositeKey × KeyWrite)) (its : List α) (txops : TxOps) :
    txops.recordAll (its.flatMap writesOf) =
      its.foldl (fun txops it => txops.recordAll (writesOf it))
        txops := by
  induction its generalizing txops with
  | nil => rfl
  | cons _ _ ih => rw [flatMap_cons, TxOps.recordAll_append, ih, foldl_cons]

theorem applyKVWrite_eq (txops : TxOps) (kvWrite : KVWrite) :
    applyKVWrite ns coll txops kvWrite = txops.record ⟨ns, coll, kvWrite.key⟩ kvWrite.keyWrite := by
  unfold applyKVWrite KVWrite.keyWrite
  split_ifs <;> rfl

theorem applyMetadata_eq (txops : TxOps) (metadataWrite : KVMetadataWrite) :
    applyMetadata ns coll txops metadataWrite =
      txops.record ⟨ns, coll, metadataWrite.key⟩ metadataWrite.keyWrite := by
  unfold applyMetadata KVMetadataWrite.keyWrite
  split_ifs <;> rfl

theorem recordAll_keyWritesOf (writes : List KVWrite)
    (metadataWrites : List KVMetadataWrite) (txops : TxOps) :
    txops.recordAll (keyWritesOf ns coll writes metadataWrites) =
      metadataWrites.foldl (applyMetadata ns coll) (writes.foldl (applyKVWrite ns coll) txops) := by
  rw [keyWritesOf, TxOps.recordAll_append]
  simp only [TxOps.recordAll, foldl_map, ← applyKVWrite_eq, ← applyMetadata_eq]

theorem applyCollHashedRwSet_eq (ns : GoString) (txops : TxOps) (collHashRWset : CollHashedRwSet) :
    applyCollHashedRwSet ns txops collHashRWset = txops.recordAll (collHashRWset.keyWrites ns) := by
  rw [CollHashedRwSet.keyWrites, recordAll_keyWritesOf, foldl_map, foldl_map]
  rfl

theorem applyNsRwSet_eq (nsRWSet : NsRwSet) :
    applyNsRwSet txops nsRWSet = txops.recordAll nsRWSet.keyWrites := by
  rw [NsRwSet.keyWrites, TxOps.recordAll_append, recordAll_keyWritesOf, TxOps.recordAll_flatMap]
  simp only [← applyCollHashedRwSet_eq]
  rfl

theorem applyTxRwset_eq (rwset : TxRwSet) :
    applyTxRwset txops rwset = txops.recordAll rwset.keyWrites := by
  rw [TxRwSet.keyWrites, TxOps.recordAll_flatMap]
  simp only [← applyNsRwSet_eq]
  rfl

variable (ck : CompositeKey)

def writesAt (writes : List (CompositeKey × KeyWrite)) : List KeyWrite :=
  (writes.filter fun write => write.1 = ck).map Prod.snd

def TxRwSet.writesAt (rwset : TxRwSet) (ck : CompositeKey) : List KeyWrite :=
  FabricSequencer.writesAt ck rwset.keyWrites

def KeyOps.recordAll (keyops : KeyOps) (writes : List KeyWrite) : KeyOps :=
  writes.foldl KeyOps.record keyops

def newKeyOps : KeyOps := { flag := 0, value := none, metadata := none }

theorem TxOps.get_record (k : CompositeKey) (w : KeyWrite) (ck : CompositeKey) :
    (txops.record k w).get ck =
      if ck = k then some ((txops.getOrCreateKeyEntry k).record w)
      else txops.get ck :=
  get_insert txops k _ ck

theorem TxOps.get_recordAll (writes : List (CompositeKey × KeyWrite)) (txops : TxOps) :
    (txops.recordAll writes).get ck =
      if writesAt ck writes = [] then txops.get ck
      else some ((txops.getOrCreateKeyEntry ck).recordAll (writesAt ck writes)) := by
  induction writes generalizing txops with
  | nil => simp [TxOps.recordAll, writesAt]
  | cons w writes ih =>
    have hstep : txops.recordAll (w :: writes) = (txops.record w.1 w.2).recordAll writes := rfl
    rw [hstep, ih]
    by_cases hk : w.1 = ck
    · subst hk
      have hw : writesAt w.1 (w :: writes) = w.2 :: writesAt w.1 writes := by simp [writesAt]
      have he :
          (txops.record w.1 w.2).getOrCreateKeyEntry w.1 =
            (txops.getOrCreateKeyEntry w.1).record w.2 := by
        simp [TxOps.getOrCreateKeyEntry, TxOps.get_record]
      rw [hw, he, TxOps.get_record]
      by_cases hn : writesAt w.1 writes = [] <;> simp [hn, KeyOps.recordAll]
    · have hw : writesAt ck (w :: writes) = writesAt ck writes := by
        simp [writesAt, hk]
      have hg : (txops.record w.1 w.2).get ck = txops.get ck := by
        rw [TxOps.get_record, if_neg (Ne.symm hk)]
      have he : (txops.record w.1 w.2).getOrCreateKeyEntry ck = txops.getOrCreateKeyEntry ck := by
        simp [TxOps.getOrCreateKeyEntry, hg]
      rw [hw, hg, he]

theorem get_applyTxRwset (rwset : TxRwSet) (ck : CompositeKey) :
    (applyTxRwset SortedMap.empty rwset).get ck =
      if rwset.writesAt ck = [] then none
      else some (newKeyOps.recordAll (rwset.writesAt ck)) := by
  rw [applyTxRwset_eq, TxOps.get_recordAll, get_empty]
  rfl

def PublicAndHashUpdates.updateAt (u : PublicAndHashUpdates) (ck : CompositeKey) : Option Update :=
  (u.changes ck.space).get ck.key

theorem updateAt_setUpdate (u : PublicAndHashUpdates) (k : CompositeKey)
    (vv : Update) (ck : CompositeKey) :
    (u.setUpdate k vv).updateAt ck =
      if ck = k then some vv else u.updateAt ck := by
  rcases k with ⟨ns, coll, key⟩
  rcases ck with ⟨ns', co', key'⟩
  by_cases hco : coll = [] <;> by_cases hco' : co' = []
  · have hp := getUpdate_update u.publicUpdates ns key vv ns' key'
    simpa [updateAt, setUpdate, space, changes, hco, hco', getUpdate] using hp
  · simp [updateAt, setUpdate, space, changes, hco, hco']
  · have hne : ([] : GoString) ≠ coll := Ne.symm hco
    simp [updateAt, setUpdate, space, changes, hco, hco', hne]
  · have hp := HashedUpdateBatch.getUpdate_update u.hashUpdates ns coll key vv ns' co' key'
    simpa [updateAt, setUpdate, space, changes, hco, hco',
      HashedUpdateBatch.getUpdate, getUpdate] using hp

def KeyOps.toUpdate (txHeight : Height) (keyops : KeyOps) : Option Update :=
  if keyops.isDelete then some (.delete txHeight)
  else keyops.value.map fun value => .put value keyops.metadata txHeight

variable {ht : Height} {e : CompositeKey × KeyOps}

theorem applyKeyOps_eq_ok_iff {u next : PublicAndHashUpdates} :
    applyKeyOps ht u e = .ok next ↔
      ∃ vv, e.2.toUpdate ht = some vv ∧
        next = u.setUpdate e.1 vv := by
  unfold applyKeyOps toUpdate
  split_ifs
  · simp [eq_comm]
  · cases e.2.value <;> simp [eq_comm]

variable {u after : PublicAndHashUpdates} {txops : List (CompositeKey × KeyOps)}

theorem applyTxOps_cons_eq_ok_iff :
    applyTxOps ht u (e :: txops) = .ok after ↔
      ∃ vv, e.2.toUpdate ht = some vv ∧ applyTxOps ht (u.setUpdate e.1 vv) txops = .ok after := by
  rw [applyTxOps]
  cases hstep : applyKeyOps ht u e with
  | error =>
    constructor
    · intro h
      cases h
    · rintro ⟨vv, hvv, -⟩
      rw [applyKeyOps_eq_ok_iff.mpr ⟨vv, hvv, rfl⟩] at hstep
      cases hstep
  | ok =>
    obtain ⟨_, hvv, rfl⟩ := applyKeyOps_eq_ok_iff.mp hstep
    simp [hvv]

theorem applyTxOps_isOk_iff (ht : Height)
    (txops : List (CompositeKey × KeyOps)) (u : PublicAndHashUpdates) :
    (∃ after, applyTxOps ht u txops = .ok after) ↔ ∀ e ∈ txops, e.2.toUpdate ht ≠ none := by
  induction txops generalizing u with
  | nil => simp [applyTxOps]
  | cons e _ ih =>
    simp only [applyTxOps_cons_eq_ok_iff, forall_mem_cons]
    cases hvv : e.2.toUpdate ht with
    | none => simp
    | some vv => simpa using ih (u.setUpdate e.1 vv)

theorem updateAt_applyTxOps (ck : CompositeKey) (hsr : txops.Pairwise fun a b => a.1 < b.1)
    (haf : applyTxOps ht u txops = .ok after) :
    after.updateAt ck = ((txops.lookup ck).bind (toUpdate ht)).or (u.updateAt ck) := by
  induction txops generalizing u with
  | nil =>
    cases haf
    simp
  | cons e txops ih =>
    obtain ⟨_, hvv, hrs⟩ := applyTxOps_cons_eq_ok_iff.mp haf
    rw [pairwise_cons] at hsr
    rw [ih hsr.2 hrs, updateAt_setUpdate, lookup_cons]
    by_cases hk : ck = e.1
    · subst hk
      have hl : txops.lookup e.1 = none := by
        rw [lookup_eq_none_iff]
        intro other ho
        simpa using (hsr.1 other ho).ne
      simp [hl, hvv]
    · simp [hk, beq_false_of_ne hk]

theorem applyWriteSet_isOk_iff (u : PublicAndHashUpdates) (rwset : TxRwSet)
    (ht : Height) (db : DB) (post : Bool) :
    (∃ after, applyWriteSet u rwset ht db post = .ok after) ↔
      ∀ ck ko, (prepareTxOps rwset u db).get ck = some ko → ko.toUpdate ht ≠ none := by
  unfold applyWriteSet
  rw [applyTxOps_isOk_iff]
  simp only [get_eq_some_iff, Prod.forall]
  rfl

variable {post : Bool}

theorem updateAt_applyWriteSet {rwset : TxRwSet} {db : DB}
    (haf : applyWriteSet u rwset ht db post = .ok after) (ck : CompositeKey) :
    after.updateAt ck =
      (((prepareTxOps rwset u db).get ck).bind (toUpdate ht)).or (u.updateAt ck) := by
  unfold applyWriteSet at haf
  have hm := updateAt_applyTxOps ck (SortedMap.sorted _) haf
  exact hm

def DB.contentAt (db : DB) (ck : CompositeKey) : Option (Bytes × Option Bytes) :=
  (db.getState ck.space ck.key).map fun vv => (vv.value, vv.metadata)

def Update.content : Update → Option (Bytes × Option Bytes)
  | .put value metadata _ => some (value, metadata)
  | .delete _ => none

theorem contentAt_applyUpdates (db : DB) (u : PublicAndHashUpdates) (ck : CompositeKey) :
    (db.applyUpdates u).contentAt ck = (u.updateAt ck).elim (db.contentAt ck) Update.content := by
  unfold DB.contentAt
  rw [DB.getState_applyUpdates]
  change Option.map _ (Option.elim (u.updateAt ck) _ _) = _
  rcases u.updateAt ck with _ | ⟨v, md, ver⟩ | ver <;> rfl

theorem retrieveLatestState_eq (u : PublicAndHashUpdates) (db : DB) :
    retrieveLatestState ck u db =
      (u.updateAt ck).elim ((db.contentAt ck).map fun held => some held.1)
        fun vv => some vv.value := by
  rcases ck with ⟨ns, coll, key⟩
  unfold retrieveLatestState DB.contentAt updateAt space
  by_cases hco : coll = []
  · simp only [hco, if_pos, changes, getUpdate]
    cases (u.publicUpdates.nsUpdates ns).get key <;> simp [comp_def]
  · simp only [hco, if_false, changes, HashedUpdateBatch.getUpdate, getUpdate, DB.getValueHash]
    cases ((u.hashUpdates.nsBatch ns).nsUpdates coll).get key <;>
      simp [comp_def]

theorem retrieveLatestMetadata_eq (u : PublicAndHashUpdates) (db : DB) :
    retrieveLatestMetadata ck u db = ((db.applyUpdates u).contentAt ck).bind Prod.snd := by
  rw [contentAt_applyUpdates]
  rcases ck with ⟨ns, coll, key⟩
  unfold retrieveLatestMetadata DB.contentAt updateAt space
  by_cases hco : coll = []
  · simp only [hco, if_pos, changes, getUpdate, DB.getStateMetadata_eq]
    rcases (u.publicUpdates.nsUpdates ns).get key with _ | ⟨v, md, ver⟩ | ver
    · cases db.getState (.pub ns) key <;> rfl
    · rfl
    · rfl
  · simp only [hco, if_false, changes, HashedUpdateBatch.getUpdate, getUpdate,
      DB.getPrivateDataMetadataByHash_eq]
    rcases ((u.hashUpdates.nsBatch ns).nsUpdates coll).get key with _ | ⟨v, md, ver⟩ | ver
    · cases db.getState (.hashed ns coll) key <;> rfl
    · rfl
    · rfl

def KeyWrite.value : KeyWrite → Option (Option Bytes)
  | .upsert value => some (some value)
  | .delete => some none
  | _ => none

def KeyWrite.metadata : KeyWrite → Option (Option Bytes)
  | .metadataUpdate metadata => some (some metadata)
  | .metadataDelete => some none
  | _ => none

/-- The content of a key after writes, of which at most one is to the value
and at most one to the metadata. -/
def serialContent (current : Option (Bytes × Option Bytes))
    (writes : List KeyWrite) : Option (Bytes × Option Bytes) :=
  match writes.findSome? KeyWrite.value, writes.findSome? KeyWrite.metadata with
  | some none, _ => none
  | some (some value), some metadata => some (value, metadata)
  | some (some value), none => some (value, current.bind Prod.snd)
  | none, some metadata => current.map fun held => (held.1, metadata)
  | none, none => current

def SingleWrites (rwset : TxRwSet) : Prop :=
  ∀ ck, (rwset.writesAt ck).countP (fun write => write.value.isSome) ≤ 1 ∧
    (rwset.writesAt ck).countP (fun write => write.metadata.isSome) ≤ 1

/-! ## Merging one key -/

theorem length_eq_countP_value_add (writes : List KeyWrite) :
    writes.length =
      writes.countP (fun w => w.value.isSome) + writes.countP (fun w => w.metadata.isSome) := by
  induction writes with
  | nil => rfl
  | cons w _ ih =>
    cases w <;>
      simp [KeyWrite.value, KeyWrite.metadata, ih] <;> omega

variable {writes : List KeyWrite}

theorem singleWrites_cases (hval : writes.countP (fun w => w.value.isSome) ≤ 1)
    (hmt : writes.countP (fun w => w.metadata.isSome) ≤ 1) :
    writes = [] ∨ (∃ w, writes = [w]) ∨
      ∃ first b, writes = [first, b] ∧ first.value.isSome ≠ b.value.isSome := by
  have hl := length_eq_countP_value_add writes
  match writes with
  | [] => exact .inl rfl
  | [w] => exact .inr (.inl ⟨w, rfl⟩)
  | [first, b] =>
    refine .inr (.inr ⟨first, b, rfl, ?_⟩)
    intro heq
    simp only [countP_cons, countP_nil, heq, length_cons] at hval hl
    split_ifs at hval hl <;> simp_all
  | first :: b :: third :: rest =>
    simp only [length_cons] at hl
    omega

section

variable (u : PublicAndHashUpdates)

/-- The update that the loops of `prepareTxOps` and `applyWriteSet` settle on:
`none` for a key that is dropped, `some none` for a nil value. -/
def mergedUpdate (db : DB) (txHeight : Height)
    (ck : CompositeKey) (writes : List KeyWrite) : Option (Option Update) :=
  (mergeLatest u db ck (newKeyOps.recordAll writes)).map (KeyOps.toUpdate txHeight)

theorem mergedUpdate_eq (db : DB) (ht : Height) (ck : CompositeKey)
    (hne : writes ≠ []) (hval : writes.countP (fun w => w.value.isSome) ≤ 1)
    (hmt : writes.countP (fun w => w.metadata.isSome) ≤ 1) :
    mergedUpdate u db ht ck writes =
      match writes.findSome? KeyWrite.value, writes.findSome? KeyWrite.metadata with
      | some none, _ => some (some (.delete ht))
      | some (some v), some md => some (some (.put v md ht))
      | some (some v), none =>
        some (some (.put v (retrieveLatestMetadata ck u db) ht))
      | none, md =>
        (retrieveLatestState ck u db).map fun latest =>
          latest.map fun v => .put v md.join ht := by
  rcases singleWrites_cases hval hmt with rfl | ⟨w, rfl⟩ | ⟨first, b, rfl, hkn⟩
  · exact absurd rfl hne
  · cases w <;>
      simp [mergedUpdate, mergeLatest, recordAll, record,
        newKeyOps, isDelete, isUpsertAndMetadataUpdate,
        isOnlyUpsert, KeyWrite.value, KeyWrite.metadata,
        toUpdate, uint8, upsertVal, metadataUpdate, metadataDelete,
        keyDelete, comp_def]
  · cases first <;> cases b <;>
      simp [mergedUpdate, mergeLatest, recordAll, record,
        newKeyOps, isDelete, isUpsertAndMetadataUpdate,
        KeyWrite.value, toUpdate, uint8, upsertVal, metadataUpdate,
        metadataDelete, keyDelete] at hkn ⊢
    all_goals rfl

/-- The preceding updates delete the key and the write set only has metadata
for it. -/
def DescribesDeleted (rwset : TxRwSet) (ck : CompositeKey) : Prop :=
  rwset.writesAt ck ≠ [] ∧ (rwset.writesAt ck).findSome? KeyWrite.value = none ∧
    ∃ version, u.updateAt ck = some (.delete version)

end

variable {u : PublicAndHashUpdates} {rwset : TxRwSet} {db : DB} {ht : Height}

theorem get_prepareTxOps (rwset : TxRwSet) (u : PublicAndHashUpdates)
    (db : DB) (ck : CompositeKey) :
    (prepareTxOps rwset u db).get ck =
      if rwset.writesAt ck = [] then none
      else mergeLatest u db ck (newKeyOps.recordAll (rwset.writesAt ck)) := by
  rw [prepareTxOps, get_mapFilter, get_applyTxRwset]
  split_ifs <;> rfl

theorem mergedUpdate_eq_some_none_iff (db : DB) (ht : Height)
    (hsn : SingleWrites rwset) (ck : CompositeKey) :
    (rwset.writesAt ck ≠ [] ∧ mergedUpdate u db ht ck (rwset.writesAt ck) = some none) ↔
      DescribesDeleted u rwset ck := by
  unfold DescribesDeleted
  refine and_congr_right fun hne => ?_
  rw [mergedUpdate_eq u db ht ck hne (hsn ck).1 (hsn ck).2, retrieveLatestState_eq]
  rcases (rwset.writesAt ck).findSome? KeyWrite.value with _ | _ | _
  · rcases u.updateAt ck with _ | ⟨_, _, _⟩ | _
    · cases db.contentAt ck <;> simp
    · simp [Update.value]
    · simp [Update.value]
  · simp
  · cases (rwset.writesAt ck).findSome? KeyWrite.metadata <;> simp

theorem applyWriteSet_isOk_iff_mergedUpdate (u : PublicAndHashUpdates)
    (rwset : TxRwSet) (ht : Height) (db : DB) (post : Bool) :
    (∃ after, applyWriteSet u rwset ht db post = .ok after) ↔
      ∀ ck, ¬ (rwset.writesAt ck ≠ [] ∧
        mergedUpdate u db ht ck (rwset.writesAt ck) = some none) := by
  rw [applyWriteSet_isOk_iff]
  refine forall_congr' fun ck => ?_
  rw [get_prepareTxOps, mergedUpdate]
  by_cases hn : rwset.writesAt ck = [] <;> simp [hn]

theorem applyWriteSet_isOk_iff_not_describesDeleted (hsn : SingleWrites rwset) (post : Bool) :
    (∃ after, applyWriteSet u rwset ht db post = .ok after) ↔
      ∀ ck, ¬ DescribesDeleted u rwset ck := by
  rw [applyWriteSet_isOk_iff_mergedUpdate]
  simp only [mergedUpdate_eq_some_none_iff db ht hsn]

theorem exists_metadata_of_value_none (hne : writes ≠ [])
    (hval : writes.findSome? KeyWrite.value = none) :
    ∃ md, writes.findSome? KeyWrite.metadata = some md := by
  obtain ⟨w, _, rfl⟩ := exists_cons_of_ne_nil hne
  cases w with
  | upsert | delete => cases hval
  | metadataUpdate md => exact ⟨some md, rfl⟩
  | metadataDelete => exact ⟨none, rfl⟩

theorem content_mergedUpdate (hsn : SingleWrites rwset)
    {ck : CompositeKey} (hne : rwset.writesAt ck ≠ []) (hb : ¬ DescribesDeleted u rwset ck) :
    ((mergedUpdate u db ht ck (rwset.writesAt ck)).join.or
        (u.updateAt ck)).elim (db.contentAt ck) Update.content =
      serialContent ((db.applyUpdates u).contentAt ck) (rwset.writesAt ck) := by
  rw [mergedUpdate_eq u db ht ck hne (hsn ck).1 (hsn ck).2,
    retrieveLatestState_eq, retrieveLatestMetadata_eq, contentAt_applyUpdates, serialContent]
  unfold DescribesDeleted at hb
  cases hval : (rwset.writesAt ck).findSome? KeyWrite.value with
  | none =>
    obtain ⟨md, hmt⟩ := exists_metadata_of_value_none hne hval
    rw [hmt]
    rcases hc : u.updateAt ck with _ | ⟨v, md, ver⟩ | ver
    · cases db.contentAt ck <;> rfl
    · rfl
    · exact absurd ⟨hne, hval, ver, hc⟩ hb
  | some wr =>
    cases wr with
    | none => rfl
    | some => cases (rwset.writesAt ck).findSome? KeyWrite.metadata <;> rfl

theorem contentAt_applyWriteSet {after : PublicAndHashUpdates} (hsn : SingleWrites rwset)
    (haf : applyWriteSet u rwset ht db post = .ok after) (ck : CompositeKey) :
    (db.applyUpdates after).contentAt ck =
      serialContent ((db.applyUpdates u).contentAt ck) (rwset.writesAt ck) := by
  rw [contentAt_applyUpdates, updateAt_applyWriteSet haf, get_prepareTxOps]
  by_cases hn : rwset.writesAt ck = []
  · rw [if_pos hn, hn, contentAt_applyUpdates]
    rfl
  · have hb := (applyWriteSet_isOk_iff_not_describesDeleted hsn post).mp ⟨after, haf⟩ ck
    rw [if_neg hn, ← content_mergedUpdate hsn hn hb, mergedUpdate]
    cases mergeLatest u db ck (newKeyOps.recordAll (rwset.writesAt ck)) <;> rfl

/-- Applying a write set after the preceding updates is what applying it to the
state those updates lead to is, unless it only has metadata for a key that they
delete; then it panics. -/
theorem applyWriteSet_serial_iff (db : DB) (u : PublicAndHashUpdates) (rwset : TxRwSet)
    (txHeight : Height) (containsPostOrderWrites : Bool) (hsingle : SingleWrites rwset) :
    (∃ after,
      applyWriteSet u rwset txHeight db containsPostOrderWrites = .ok after ∧
        ∀ ck, (db.applyUpdates after).contentAt ck =
          serialContent ((db.applyUpdates u).contentAt ck) (rwset.writesAt ck)) ↔
      ∀ ck, ¬ DescribesDeleted u rwset ck := by
  rw [← applyWriteSet_isOk_iff_not_describesDeleted hsingle containsPostOrderWrites]
  constructor
  · rintro ⟨after, haf, -⟩
    exact ⟨after, haf⟩
  · rintro ⟨after, haf⟩
    exact ⟨after, haf, contentAt_applyWriteSet hsingle haf⟩

def pubRwSet (ns : GoString) (kvRwSet : KVRWSet) : TxRwSet where
  nsRwSets := [{ nameSpace := ns, kvRwSet := kvRwSet, collHashedRwSets := [] }]

def deletingRwSet : TxRwSet :=
  pubRwSet (ascii "cc")
    { reads := [], rangeQueriesInfo := []
      writes := [{ key := ascii "k", isDelete := true, value := [] }]
      metadataWrites := [] }

def describingRwSet : TxRwSet :=
  pubRwSet (ascii "cc")
    { reads := [], rangeQueriesInfo := [], writes := []
      metadataWrites :=
        [{ key := ascii "k"
           entries := [{ name := ascii "VALIDATION_PARAMETER", value := [1] }] }] }

def emptyDB : DB where
  data _ := SortedMap.empty
  metadataHint _ := false
  hint_covers := by
    intro space key vv hspace hget
    simp at hget

theorem countP_writesAt_le {keep : KeyWrite → Bool} (ck : CompositeKey)
    (writes : List (CompositeKey × KeyWrite)) :
    (writesAt ck writes).countP keep ≤ writes.length := by
  calc (writesAt ck writes).countP keep ≤ (writesAt ck writes).length := countP_le_length
    _ ≤ writes.length := by
        rw [writesAt, length_map]
        exact length_filter_le _ _

theorem singleWrites_of_length {rwset : TxRwSet}
    (hl : rwset.keyWrites.length ≤ 1) : SingleWrites rwset := by
  intro ck
  exact ⟨(countP_writesAt_le ck _).trans hl, (countP_writesAt_le ck _).trans hl⟩

def afterDelete : PublicAndHashUpdates :=
  newPubAndHashUpdates.setUpdate ⟨ascii "cc", [], ascii "k"⟩ (.delete ⟨2, 0⟩)

theorem describing_after_delete_panics :
    SingleWrites deletingRwSet ∧ SingleWrites describingRwSet ∧
      applyWriteSet newPubAndHashUpdates deletingRwSet ⟨2, 0⟩ emptyDB false = .ok afterDelete ∧
      applyWriteSet afterDelete describingRwSet ⟨2, 1⟩ emptyDB false =
        .error (.panic "Nil value not allowed. Instead call 'Delete' function") := by
  refine ⟨singleWrites_of_length (by decide), singleWrites_of_length (by decide), ?_, ?_⟩
  · rfl
  · rfl

def afterPut : PublicAndHashUpdates :=
  newPubAndHashUpdates.setUpdate ⟨ascii "cc", [], ascii "k"⟩ (.put [7] none ⟨2, 0⟩)

/-- Metadata for a key that a transaction before has written. -/
theorem describingRwSet_serial :
    SingleWrites describingRwSet ∧
      ∃ after, applyWriteSet afterPut describingRwSet ⟨2, 1⟩ emptyDB false = .ok after ∧
        ∀ ck, (emptyDB.applyUpdates after).contentAt ck =
          serialContent ((emptyDB.applyUpdates afterPut).contentAt ck)
            (describingRwSet.writesAt ck) := by
  have hsingle : SingleWrites describingRwSet := singleWrites_of_length (by decide)
  refine ⟨hsingle,
    (applyWriteSet_serial_iff emptyDB afterPut describingRwSet ⟨2, 1⟩ false hsingle).mpr ?_⟩
  rintro ck ⟨-, -, _, hdelete⟩
  have hnone : newPubAndHashUpdates.updateAt ck = none := by
    unfold updateAt space
    split_ifs <;> rfl
  rw [afterPut, updateAt_setUpdate, hnone] at hdelete
  split_ifs at hdelete
  cases hdelete

end FabricSequencer
