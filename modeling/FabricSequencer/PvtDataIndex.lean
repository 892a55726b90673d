import FabricSequencer.PvtDataStore

/-!
# The index of the private data store

The index has one entry for every write of every stored write set.  `Commit`
adds both together.  The purger reads the index through iterators, trims write
sets in memory and writes them back together with the deletions of the index
entries it has processed; `PurgerFits` says how its memory and the store belong
together between two of its steps.
-/

namespace FabricSequencer

open SortedMap List Option Function KVWrite

namespace Height

theorem compare_nonpos_iff {h h1 : Height} :
    h.compare h1 ≤ 0 ↔
      h.blockNum < h1.blockNum ∨ h.blockNum = h1.blockNum ∧ h.txNum ≤ h1.txNum := by
  unfold Height.compare
  split_ifs <;> omega

theorem compare_pos_iff {h h1 : Height} : h.compare h1 > 0 ↔ ¬ h.compare h1 ≤ 0 := by
  omega

theorem compare_nonpos_trans {h h1 h2 : Height} (hf : h.compare h1 ≤ 0)
    (hs : h1.compare h2 ≤ 0) : h.compare h2 ≤ 0 := by
  rw [compare_nonpos_iff] at *
  omega

end Height

namespace Pvtdatastorage

variable {hash : KeyHash} {btl : BTLPolicy}

structure IndexFits (hash : KeyHash) (db : StoreDB) : Prop where
  named : ∀ dk v, db.data.get dk = some v → v.collectionName = dk.coll
  distinct : ∀ dk v, db.data.get dk = some v → (v.kvRwSet.writes.map KVWrite.key).Nodup
  index : ∀ hk key, db.hashedIndex.get hk = some key ↔
    ∃ v, db.data.get hk.dataKey = some v ∧ ∃ w ∈ v.kvRwSet.writes,
      w.key = key ∧ hk.pvtkeyHash = hash key

structure Bounded (db : StoreDB) : Prop where
  data : ∀ dk v, db.data.get dk = some v → dk.blkNum < db.nextBlockNum
  expiry : ∀ key value, db.expiry.get key = some value → key.committingBlk < db.nextBlockNum
  purgeMarker : ∀ key ht, db.purgeMarker.get key = some ht → ht.blockNum < db.nextBlockNum

theorem dataKey_hashedIndexKey (dk : DataKey) (w : KVWrite) :
    (dk.hashedIndexKey hash w).dataKey = dk := rfl

variable {hk : HashedIndexKey} {dk : DataKey}

theorem hashedIndexKey_eq_iff {w : KVWrite} :
    dk.hashedIndexKey hash w = hk ↔ hk.dataKey = dk ∧ hk.pvtkeyHash = hash w.key := by
  rcases dk with ⟨_, _, _, _⟩
  rcases hk with ⟨_, _, _, _, _⟩
  simp only [DataKey.hashedIndexKey, HashedIndexKey.dataKey,
    HashedIndexKey.mk.injEq, DataKey.mk.injEq]
  constructor
  · rintro ⟨rfl, rfl, rfl, rfl, rfl⟩
    simp
  · rintro ⟨⟨rfl, rfl, rfl, rfl⟩, rfl⟩
    simp

variable {v : CollPvtRwSet} {db : StoreDB}

theorem IndexFits.get_hashedIndexKey (hft : IndexFits hash db) {w : KVWrite}
    (hdt : db.data.get dk = some v) (hw : w ∈ v.kvRwSet.writes) :
    db.hashedIndex.get (dk.hashedIndexKey hash w) = some w.key :=
  (hft.index _ _).mpr ⟨v, hdt, w, hw, rfl, rfl⟩

/-! ## Commit -/

variable {pvtData : List TxPvtData}

theorem mem_prepareDataEntries {bn : ℕ} {e : DataEntry} (hm : e ∈ prepareDataEntries bn pvtData) :
    e.1.blkNum = bn ∧ e.2.collectionName = e.1.coll := by
  simp only [prepareDataEntries, List.mem_flatMap, List.mem_map] at hm
  obtain ⟨_, -, _, -, _, -, rfl⟩ := hm
  exact ⟨rfl, rfl⟩

variable {key : GoString} {dataEntries : List DataEntry}

theorem mem_prepareHashedIndexEntries :
    (hk, key) ∈ prepareHashedIndexEntries hash dataEntries ↔
      ∃ v, (hk.dataKey, v) ∈ dataEntries ∧ ∃ w ∈ v.kvRwSet.writes,
        w.key = key ∧ hk.pvtkeyHash = hash key := by
  simp only [prepareHashedIndexEntries, List.mem_flatMap, List.mem_map, Prod.mk.injEq, Prod.exists]
  constructor
  · rintro ⟨_, v, he, w, hw, hy, rfl⟩
    obtain ⟨rfl, hhs⟩ := hashedIndexKey_eq_iff.mp hy
    exact ⟨v, he, w, hw, rfl, hhs⟩
  · rintro ⟨v, he, w, hw, rfl, hhs⟩
    exact ⟨hk.dataKey, v, he, w, hw, hashedIndexKey_eq_iff.mpr ⟨rfl, hhs⟩, rfl⟩

/-- The private data of a block as the endorsers built it: one write set for
each transaction and collection, one write for each key. -/
structure CommitInput.Distinct (input : CommitInput) : Prop where
  keys : ((prepareDataEntries input.blockNum input.pvtData).map Prod.fst).Nodup
  writes : ∀ entry ∈ prepareDataEntries input.blockNum input.pvtData,
    (entry.2.kvRwSet.writes.map KVWrite.key).Nodup

theorem prepareStoreEntries_eq_ok {bn : ℕ}
    {missing : TxMissingPvtData} {purgeMarkers : List PurgeMarker} {es : StoreEntries}
    (hpp : prepareStoreEntries hash btl bn pvtData missing purgeMarkers = .ok es) :
    es.dataEntries = prepareDataEntries bn pvtData ∧
      es.hashedIndexEntries = prepareHashedIndexEntries hash es.dataEntries ∧
      es.elgMissingDataEntries = (prepareMissingDataEntries bn missing).1 ∧
      es.inelgMissingDataEntries = (prepareMissingDataEntries bn missing).2 ∧
      prepareExpiryEntries bn es.dataEntries es.elgMissingDataEntries es.inelgMissingDataEntries
        btl = .ok es.expiryEntries ∧
      es.purgeMarkerEntries = (preparePurgerMarkerEntries bn purgeMarkers).1 ∧
      es.purgeMarkerCollEntries = (preparePurgerMarkerEntries bn purgeMarkers).2 := by
  obtain ⟨_, hx, he⟩ := of_bind hpp
  cases he
  exact ⟨rfl, rfl, rfl, rfl, hx, rfl, rfl⟩

variable {input : CommitInput} {db next : StoreDB}

theorem commit_eq_ok (hcom : db.commit hash btl input = .ok next) :
    db.nextBlockNum = input.blockNum ∧ ∃ es,
      prepareStoreEntries hash btl input.blockNum input.pvtData
        input.missingPvtData input.purgeMarkers = .ok es ∧
      next = db.putEntries input.blockNum es := by
  unfold StoreDB.commit at hcom
  dsimp only at hcom
  split at hcom
  · cases hcom
  next hn =>
    obtain ⟨es, hpp, hnx⟩ := of_bind hcom
    cases hnx
    exact ⟨not_not.mp hn, es, hpp, rfl⟩

variable {e : ExpiryKey × ExpiryData}

theorem mem_expiryEntries {committingBlk : ℕ}
    {elgMissing inelgMissing : MissingData} {expiryEntries : List (ExpiryKey × ExpiryData)}
    (hpp : prepareExpiryEntries committingBlk dataEntries elgMissing
      inelgMissing btl = .ok expiryEntries) (hm : e ∈ expiryEntries) :
    e.1.committingBlk = committingBlk := by
  obtain ⟨_, -, hpp⟩ := of_bind hpp
  obtain ⟨_, -, hpp⟩ := of_bind hpp
  obtain ⟨_, -, hpp⟩ := of_bind hpp
  cases hpp
  obtain ⟨_, -, rfl⟩ := mem_map.mp hm
  rfl

theorem indexFits_insertAll {es : List DataEntry}
    (hhs : Injective hash) (hft : IndexFits hash db) (hky : (es.map Prod.fst).Nodup)
    (hn : ∀ e ∈ es, db.data.get e.1 = none ∧ e.2.collectionName = e.1.coll ∧
      (e.2.kvRwSet.writes.map KVWrite.key).Nodup)
    (hdt : next.data = db.data.insertAll es)
    (hi : next.hashedIndex = db.hashedIndex.insertAll (prepareHashedIndexEntries hash es)) :
    IndexFits hash next := by
  have hg : ∀ dk v, next.data.get dk = some v ↔
      (dk, v) ∈ es ∨ (∀ other, (dk, other) ∉ es) ∧ db.data.get dk = some v := by
    intro _ _
    rw [hdt]
    exact get_insertAll_iff hky
  refine ⟨?_, ?_, ?_⟩
  · intro dk v hv
    rcases (hg dk v).mp hv with hm | ⟨-, hl⟩
    · exact (hn _ hm).2.1
    · exact hft.named dk v hl
  · intro dk v hv
    rcases (hg dk v).mp hv with hm | ⟨-, hl⟩
    · exact (hn _ hm).2.2
    · exact hft.distinct dk v hl
  intro hk key
  rw [hi]
  constructor
  · intro hfn
    rcases mem_of_get_insertAll hfn with hm | ⟨-, hl⟩
    · rw [mem_prepareHashedIndexEntries] at hm
      obtain ⟨v, he, hwt⟩ := hm
      exact ⟨v, (hg _ v).mpr (.inl he), hwt⟩
    obtain ⟨v, hv, hwt⟩ := (hft.index hk key).mp hl
    refine ⟨v, (hg _ v).mpr (.inr ⟨?_, hv⟩), hwt⟩
    intro _ hm
    rw [(hn _ hm).1] at hv
    cases hv
  · rintro ⟨v, hv, hwt⟩
    rcases (hg _ v).mp hv with hm | ⟨hfr, hl⟩
    · have he : (hk, key) ∈ prepareHashedIndexEntries hash es :=
        mem_prepareHashedIndexEntries.mpr ⟨v, hm, hwt⟩
      obtain ⟨_, hla, hs⟩ := exists_get_insertAll db.hashedIndex he
      -- The hash in the key determines the key of the write.
      obtain ⟨-, -, -, -, -, ht⟩ := mem_prepareHashedIndexEntries.mp hs
      obtain ⟨-, -, -, hy⟩ := hwt
      rw [hhs (hy.symm.trans ht)]
      exact hla
    · rw [get_insertAll_of_not_mem]
      · exact (hft.index hk key).mpr ⟨v, hl, hwt⟩
      · intro _ hm
        obtain ⟨v', he, -⟩ := mem_prepareHashedIndexEntries.mp hm
        exact hfr v' he

section Commit

variable {db next : StoreDB} {input : CommitInput} (hcom : db.commit hash btl input = .ok next)

include hcom

theorem nextBlockNum_commit : next.nextBlockNum = db.nextBlockNum + 1 := by
  obtain ⟨hn, _, -, rfl⟩ := commit_eq_ok hcom
  rw [hn]
  rfl

theorem mem_of_get_data_commit {dk : DataKey} {v : CollPvtRwSet} (hg : next.data.get dk = some v) :
    (dk, v) ∈ prepareDataEntries input.blockNum input.pvtData ∨ db.data.get dk = some v := by
  obtain ⟨-, _, hpp, rfl⟩ := commit_eq_ok hcom
  obtain ⟨hdt, -⟩ := prepareStoreEntries_eq_ok hpp
  rw [← hdt]
  exact (mem_of_get_insertAll hg).imp_right And.right

theorem get_data_commit_of_lt {dk : DataKey} (hl : dk.blkNum < db.nextBlockNum) :
    next.data.get dk = db.data.get dk := by
  obtain ⟨_, _, hpp, rfl⟩ := commit_eq_ok hcom
  obtain ⟨hdt, -⟩ := prepareStoreEntries_eq_ok hpp
  apply get_insertAll_of_not_mem
  intro _ hm
  rw [hdt] at hm
  have hb := (mem_prepareDataEntries hm).1
  dsimp only at hb
  omega

theorem get_hashedIndex_commit_of_lt {hk : HashedIndexKey} (hl : hk.blkNum < db.nextBlockNum) :
    next.hashedIndex.get hk = db.hashedIndex.get hk := by
  obtain ⟨_, _, hpp, rfl⟩ := commit_eq_ok hcom
  obtain ⟨hdt, hi, -⟩ := prepareStoreEntries_eq_ok hpp
  apply get_insertAll_of_not_mem
  intro _ hm
  rw [hi, mem_prepareHashedIndexEntries, hdt] at hm
  obtain ⟨_, he, -⟩ := hm
  have hb : hk.dataKey.blkNum = input.blockNum := (mem_prepareDataEntries he).1
  have heq : hk.dataKey.blkNum = hk.blkNum := rfl
  omega

theorem get_expiry_commit_of_lt {key : ExpiryKey} (hl : key.committingBlk < db.nextBlockNum) :
    next.expiry.get key = db.expiry.get key := by
  obtain ⟨_, _, hpp, rfl⟩ := commit_eq_ok hcom
  obtain ⟨-, -, -, -, hx, -⟩ := prepareStoreEntries_eq_ok hpp
  apply get_insertAll_of_not_mem
  intro _ hm
  have hb := mem_expiryEntries hx hm
  dsimp only at hb
  omega

theorem bounded_commit (hn : Bounded db) : Bounded next := by
  have hnx := nextBlockNum_commit hcom
  obtain ⟨_, _, hpp, hp⟩ := commit_eq_ok hcom
  obtain ⟨-, -, -, -, hx, hm, -⟩ := prepareStoreEntries_eq_ok hpp
  refine ⟨?_, ?_, ?_⟩
  · intro dk v hg
    rcases mem_of_get_data_commit hcom hg with hnew | hl
    · have hb := (mem_prepareDataEntries hnew).1
      dsimp only at hb
      omega
    · have hb := hn.data dk v hl
      omega
  · intro key value hg
    rw [hp] at hg
    rcases mem_of_get_insertAll hg with hnew | ⟨-, hl⟩
    · have hb := mem_expiryEntries hx hnew
      dsimp only at hb
      omega
    · have hb := hn.expiry key value hl
      omega
  intro key ht hg
  rw [hp] at hg
  rcases mem_of_get_insertAll hg with hnew | ⟨-, hl⟩
  · rw [hm] at hnew
    obtain ⟨_, -, heq⟩ := mem_map.mp hnew
    cases heq
    dsimp only
    omega
  · have hb := hn.purgeMarker key ht hl
    omega

theorem get_data_commit_of_mem (hds : input.Distinct) {e : DataEntry}
    (hm : e ∈ prepareDataEntries input.blockNum input.pvtData) :
    next.data.get e.1 = some e.2 := by
  obtain ⟨-, _, hpp, rfl⟩ := commit_eq_ok hcom
  obtain ⟨hdt, -⟩ := prepareStoreEntries_eq_ok hpp
  apply (get_insertAll_iff (hdt ▸ hds.keys)).mpr
  rw [hdt]
  exact .inl hm

theorem indexFits_commit (hhs : Injective hash) (hb : Bounded db) (hft : IndexFits hash db)
    (hds : input.Distinct) : IndexFits hash next := by
  obtain ⟨_, es, hpp, rfl⟩ := commit_eq_ok hcom
  obtain ⟨hdt, hi, -⟩ := prepareStoreEntries_eq_ok hpp
  have hn : ∀ e ∈ es.dataEntries, db.data.get e.1 = none ∧ e.2.collectionName = e.1.coll ∧
      (e.2.kvRwSet.writes.map KVWrite.key).Nodup := by
    intro e he
    rw [hdt] at he
    obtain ⟨_, hnm⟩ := mem_prepareDataEntries he
    refine ⟨?_, hnm, hds.writes e he⟩
    cases hg : db.data.get e.1 with
    | none => rfl
    | some =>
      have hlt := hb.data _ _ hg
      omega
  refine indexFits_insertAll hhs hft (hdt ▸ hds.keys) hn rfl ?_
  change db.hashedIndex.insertAll es.hashedIndexEntries = _
  rw [hi]

end Commit

structure ProcessorFits (hash : KeyHash) (db : StoreDB) (p : PurgeUpdatesProcessor) : Prop where
  trimmed : ∀ dk trimmed, p.pvtWrites.get dk = some trimmed →
    ∃ v, db.data.get dk = some v ∧ trimmed = v.filterWrites fun w =>
      decide (dk.hashedIndexKey hash w ∉ p.deletedIndex)
  deleted : ∀ hk ∈ p.deletedIndex, ∃ trimmed, p.pvtWrites.get hk.dataKey = some trimmed

def taken (markers : List (PurgeMarkerKey × Height)) (current : Option (PurgeMarkerKey × Height))
    (p : PurgeUpdatesProcessor) : List (PurgeMarkerKey × Height) :=
  p.deletedMarkers ++ current.toList ++ markers

/-- `deleteDataMarkedForPurge` between two steps. -/
structure MarkedFits (hash : KeyHash) (db : StoreDB) (markers : List (PurgeMarkerKey × Height))
    (current : Option (PurgeMarkerKey × Height))
    (index : List HashedIndexEntry) (p : PurgeUpdatesProcessor) : Prop where
  processor : ProcessorFits hash db p
  stored : ∀ entry ∈ index, db.hashedIndex.get entry.1 = some entry.2
  fresh : ∀ entry ∈ index, entry.1 ∉ p.deletedIndex
  once : (index.map Prod.fst).Nodup
  processed : ∀ marker ∈ p.deletedMarkers, ∀ hk key,
    db.hashedIndex.get hk = some key → hk.markerKey = marker.1 →
      hk.height.compare marker.2 ≤ 0 → hk ∈ p.deletedIndex
  processing : ∀ marker ∈ current, ∀ hk key,
    db.hashedIndex.get hk = some key → hk.markerKey = marker.1 →
      hk.height.compare marker.2 ≤ 0 → hk ∈ p.deletedIndex ∨ (hk, key) ∈ index
  indexSource : ∀ entry ∈ index, ∃ marker ∈ current,
    entry.1.markerKey = marker.1 ∧ entry.1.height.compare marker.2 ≤ 0
  deletedSource : ∀ hk ∈ p.deletedIndex,
    ∃ marker ∈ p.deletedMarkers ++ current.toList,
      hk.markerKey = marker.1 ∧ hk.height.compare marker.2 ≤ 0
  distinct : ((taken markers current p).map Prod.fst).Nodup
  bounded : ∀ marker ∈ taken markers current p, marker.2.blockNum < db.nextBlockNum

def PurgerFits (hash : KeyHash) (db : StoreDB) : Purger → Prop
  | .expiring rest =>
    (rest.map Prod.fst).Nodup ∧ ∀ entry ∈ rest, db.expiry.get entry.1 = some entry.2
  | .marked markers current index p => MarkedFits hash db markers current index p

variable {p : PurgeUpdatesProcessor}

theorem processorFits_commit (hcom : db.commit hash btl input = .ok next)
    (hb : Bounded db) (hft : ProcessorFits hash db p) : ProcessorFits hash next p where
  trimmed := by
    intro dk trimmed hg
    obtain ⟨v, hdt, ht⟩ := hft.trimmed dk trimmed hg
    refine ⟨v, ?_, ht⟩
    rw [get_data_commit_of_lt hcom (hb.data dk v hdt), hdt]
  deleted := hft.deleted

theorem get_hashedIndex_commit_of_height (hcom : db.commit hash btl input = .ok next)
    {ht : Height} (hle : hk.height.compare ht ≤ 0) (hn : ht.blockNum < db.nextBlockNum) :
    next.hashedIndex.get hk = db.hashedIndex.get hk := by
  apply get_hashedIndex_commit_of_lt hcom
  rw [Height.compare_nonpos_iff] at hle
  have hb : hk.height.blockNum = hk.blkNum := rfl
  omega

theorem purgerFits_commit {purger : Purger} (hcom : db.commit hash btl input = .ok next)
    (hb : Bounded db) (hft : PurgerFits hash db purger) :
    PurgerFits hash next purger := by
  cases purger with
  | expiring =>
    refine ⟨hft.1, ?_⟩
    intro e he
    have hg := hft.2 e he
    rw [get_expiry_commit_of_lt hcom (hb.expiry _ _ hg), hg]
  | marked markers current index p =>
    have hr : MarkedFits hash db markers current index p := hft
    have htk : ∀ marker ∈ p.deletedMarkers ++ current.toList,
        marker.2.blockNum < db.nextBlockNum := fun marker hm =>
      hr.bounded marker (mem_append_left _ hm)
    exact
      { hr with
        processor := processorFits_commit hcom hb hr.processor
        stored := by
          intro e he
          obtain ⟨marker, hmr, -, hle⟩ := hr.indexSource e he
          rw [get_hashedIndex_commit_of_height hcom hle
            (htk marker (mem_append_right _ (mem_toList.mpr hmr)))]
          exact hr.stored e he
        processed := by
          intro marker hmr hk key hg hy hle
          rw [get_hashedIndex_commit_of_height hcom hle (htk marker (mem_append_left _ hmr))] at hg
          exact hr.processed marker hmr hk key hg hy hle
        processing := by
          intro marker hmr hk key hg hy hle
          rw [get_hashedIndex_commit_of_height hcom hle
            (htk marker (mem_append_right _ (mem_toList.mpr hmr)))] at hg
          exact hr.processing marker hmr hk key hg hy hle
        bounded := by
          intro marker hmr
          have hl := hr.bounded marker hmr
          rw [nextBlockNum_commit hcom]
          omega }

/-! ## The steps of the purger -/

theorem get_data_of_purgeExpiryEntry (hg : (db.purgeExpiryEntry hash e).data.get dk = some v) :
    dk ∉ deriveDataKeys e.1 e.2 ∧ db.data.get dk = some v := by
  have hee : (db.data.eraseAll (deriveDataKeys e.1 e.2)).get dk = some v := hg
  rw [get_eraseAll] at hee
  split_ifs at hee with hm
  exact ⟨hm, hee⟩

theorem bounded_purgeExpiryEntry (e : ExpiryKey × ExpiryData) (hb : Bounded db) :
    Bounded (db.purgeExpiryEntry hash e) where
  data := by
    intro dk v hg
    exact hb.data dk v (get_data_of_purgeExpiryEntry hg).2
  expiry := by
    intro key value hg
    have hee : (db.expiry.erase e.1).get key = some value := hg
    rw [get_erase] at hee
    split_ifs at hee
    exact hb.expiry key value hee
  purgeMarker := hb.purgeMarker

theorem mem_retrieveDataEntries {dataKeys : List DataKey} :
    (dk, v) ∈ db.retrieveDataEntries dataKeys ↔ dk ∈ dataKeys ∧ db.data.get dk = some v := by
  simp only [StoreDB.retrieveDataEntries, mem_filterMap, map_eq_some_iff, Prod.mk.injEq]
  constructor
  · rintro ⟨_, hm, _, hg, rfl, rfl⟩
    exact ⟨hm, hg⟩
  · rintro ⟨hm, hg⟩
    exact ⟨dk, hm, v, hg, rfl, rfl⟩

theorem indexFits_purgeExpiryEntry (e : ExpiryKey × ExpiryData) (hft : IndexFits hash db) :
    IndexFits hash (db.purgeExpiryEntry hash e) where
  named := by
    intro dk v hg
    exact hft.named dk v (get_data_of_purgeExpiryEntry hg).2
  distinct := by
    intro dk v hg
    exact hft.distinct dk v (get_data_of_purgeExpiryEntry hg).2
  index := by
    intro hk key
    let dataKeys := deriveDataKeys e.1 e.2
    let rm := prepareHashedIndexEntries hash (db.retrieveDataEntries dataKeys)
    change (db.hashedIndex.eraseAll (rm.map Prod.fst)).get hk = some key ↔
      ∃ v, (db.data.eraseAll dataKeys).get hk.dataKey = some v ∧ _
    -- An index e goes exactly if the write set it belongs to goes.
    have hr : db.hashedIndex.get hk = some key →
        (hk ∈ rm.map Prod.fst ↔ hk.dataKey ∈ dataKeys) := by
      intro hg
      simp only [List.mem_map, Prod.exists, exists_and_right, exists_eq_right]
      constructor
      · rintro ⟨_, hm⟩
        obtain ⟨_, he, -⟩ := mem_prepareHashedIndexEntries.mp hm
        exact (mem_retrieveDataEntries.mp he).1
      · intro hm
        obtain ⟨v, hdt, hwt⟩ := (hft.index hk key).mp hg
        exact ⟨key, mem_prepareHashedIndexEntries.mpr
          ⟨v, mem_retrieveDataEntries.mpr ⟨hm, hdt⟩, hwt⟩⟩
    rw [get_eraseAll, get_eraseAll]
    constructor
    · intro hg
      split_ifs at hg with hm
      rw [hr hg] at hm
      rw [if_neg hm]
      exact (hft.index hk key).mp hg
    rintro ⟨v, hg, hwt⟩
    split_ifs at hg with hm
    have hi := (hft.index hk key).mpr ⟨v, hg, hwt⟩
    rw [← hr hi] at hm
    rw [if_neg hm]
    exact hi

theorem eraseP_key_eq_filter {ws : List KVWrite} (hds : (ws.map KVWrite.key).Nodup) :
    (ws.eraseP fun w => w.key == key) = ws.filter fun w => decide (w.key ≠ key) := by
  induction ws with
  | nil => rfl
  | cons w ws ih =>
    rw [map_cons, nodup_cons] at hds
    by_cases hk : w.key = key
    · have hrs : ∀ other ∈ ws, other.key ≠ key := by
        rintro other ho rfl
        exact hds.1 (hk ▸ mem_map_of_mem ho)
      rw [eraseP_cons_of_pos (by simpa using hk), filter_cons_of_neg (by simpa using hk)]
      exact (filter_eq_self.mpr (by simpa using hrs)).symm
    · rw [eraseP_cons_of_neg (by simpa using hk), filter_cons_of_pos (by simpa using hk), ih hds.2]

theorem filterWrites_congr {keep other : KVWrite → Bool}
    (heq : ∀ w ∈ v.kvRwSet.writes, keep w = other w) :
    v.filterWrites keep = v.filterWrites other := by
  rw [CollPvtRwSet.filterWrites, CollPvtRwSet.filterWrites, filter_congr heq]

theorem removeWrite_filterWrites {keep : KVWrite → Bool}
    (hds : (v.kvRwSet.writes.map KVWrite.key).Nodup) :
    (v.filterWrites keep).removeWrite key =
      v.filterWrites fun w => decide (w.key ≠ key) && keep w := by
  have hkp : ((v.kvRwSet.writes.filter keep).map KVWrite.key).Nodup :=
    hds.sublist (filter_sublist.map _)
  simp only [CollPvtRwSet.removeWrite, CollPvtRwSet.filterWrites,
    eraseP_key_eq_filter hkp, List.filter_filter]

theorem ProcessorFits.filterWrites_of_absent (hft : ProcessorFits hash db p)
    (hb : p.pvtWrites.get dk = none) (v : CollPvtRwSet) : (v.filterWrites fun w =>
      decide (dk.hashedIndexKey hash w ∉ p.deletedIndex)) = v := by
  have ha : ∀ w ∈ v.kvRwSet.writes, decide (dk.hashedIndexKey hash w ∉ p.deletedIndex) = true := by
    intro _ _
    rw [decide_eq_true_eq]
    intro hm
    obtain ⟨_, hg⟩ := hft.deleted _ hm
    rw [dataKey_hashedIndexKey, hb] at hg
    cases hg
  rw [CollPvtRwSet.filterWrites, filter_eq_self.mpr ha]

theorem ProcessorFits.current_eq (hft : ProcessorFits hash db p) (hdt : db.data.get dk = some v) :
    (p.pvtWrites.get dk).getD ((db.data.get dk).getD emptyCollPvtRwSet) = v.filterWrites fun w =>
        decide (dk.hashedIndexKey hash w ∉ p.deletedIndex) := by
  cases hg : p.pvtWrites.get dk with
  | none =>
    rw [hdt, hft.filterWrites_of_absent hg]
    rfl
  | some trimmed =>
    obtain ⟨_, ho, ht⟩ := hft.trimmed dk trimmed hg
    rw [hdt] at ho
    cases ho
    exact ht

variable {e : HashedIndexEntry}

theorem processorFits_process (hhs : Injective hash) (hi : IndexFits hash db)
    (hft : ProcessorFits hash db p) (he : db.hashedIndex.get e.1 = some e.2) :
    ProcessorFits hash db (p.process db e) := by
  obtain ⟨v, hdt, -, -, -, hn⟩ := (hi.index e.1 e.2).mp he
  refine ⟨?_, ?_⟩
  · intro dk trimmed hg
    simp only [PurgeUpdatesProcessor.process, get_insert] at hg
    simp only [PurgeUpdatesProcessor.process, mem_cons, not_or, Bool.decide_and]
    split_ifs at hg with hdk
    · subst hdk
      cases hg
      refine ⟨v, hdt, ?_⟩
      rw [hft.current_eq hdt, removeWrite_filterWrites (hi.distinct _ _ hdt)]
      apply filterWrites_congr
      intro w _
      have hsm : w.key = e.2 ↔ e.1.dataKey.hashedIndexKey hash w = e.1 := by
        rw [hashedIndexKey_eq_iff, hn]
        constructor
        · intro heq
          exact ⟨rfl, by rw [heq]⟩
        · rintro ⟨-, heq⟩
          exact (hhs heq).symm
      simp only [ne_eq, hsm]
    · obtain ⟨other, ho, rfl⟩ := hft.trimmed dk trimmed hg
      refine ⟨other, ho, ?_⟩
      apply filterWrites_congr
      intro w _
      have hne : dk.hashedIndexKey hash w ≠ e.1 := by
        intro heq
        exact hdk (hashedIndexKey_eq_iff.mp heq).1.symm
      simp [hne]
  · intro hk hm
    simp only [PurgeUpdatesProcessor.process, get_insert]
    rcases mem_cons.mp hm with rfl | hold
    · exact ⟨_, if_pos rfl⟩
    · obtain ⟨trimmed, hg⟩ := hft.deleted hk hold
      split_ifs
      · exact ⟨_, rfl⟩
      · exact ⟨trimmed, hg⟩

theorem get_data_commitPendingChanges (hft : ProcessorFits hash db p) (dk : DataKey) :
    (db.commitPendingChanges p).data.get dk = (db.data.get dk).map fun v => v.filterWrites fun w =>
        decide (dk.hashedIndexKey hash w ∉ p.deletedIndex) := by
  change (db.data.insertAll p.pvtWrites.entries).get dk = _
  rw [get_insertAll_entries]
  cases hg : p.pvtWrites.get dk with
  | none =>
    cases hdt : db.data.get dk with
    | none => rfl
    | some =>
      rw [map_some, hft.filterWrites_of_absent hg]
      rfl
  | some trimmed =>
    obtain ⟨_, hdt, ht⟩ := hft.trimmed dk trimmed hg
    simp [hdt, ht]

theorem get_hashedIndex_commitPendingChanges (db : StoreDB)
    (p : PurgeUpdatesProcessor) (hk : HashedIndexKey) :
    (db.commitPendingChanges p).hashedIndex.get hk =
      if hk ∈ p.deletedIndex then none else db.hashedIndex.get hk :=
  get_eraseAll db.hashedIndex p.deletedIndex hk

theorem bounded_commitPendingChanges (hft : ProcessorFits hash db p)
    (hb : Bounded db) : Bounded (db.commitPendingChanges p) where
  data := by
    intro dk _ hg
    rw [get_data_commitPendingChanges hft, map_eq_some_iff] at hg
    obtain ⟨pre, hp, -⟩ := hg
    exact hb.data dk pre hp
  expiry := hb.expiry
  purgeMarker := by
    intro key ht hg
    have hee : (db.purgeMarker.eraseAll (p.deletedMarkers.map Prod.fst)).get key = some ht := hg
    rw [get_eraseAll] at hee
    split_ifs at hee
    exact hb.purgeMarker key ht hee

theorem indexFits_commitPendingChanges (hi : IndexFits hash db) (hft : ProcessorFits hash db p) :
    IndexFits hash (db.commitPendingChanges p) where
  named := by
    intro dk _ hg
    rw [get_data_commitPendingChanges hft, map_eq_some_iff] at hg
    obtain ⟨pre, hp, rfl⟩ := hg
    exact hi.named dk pre hp
  distinct := by
    intro dk _ hg
    rw [get_data_commitPendingChanges hft, map_eq_some_iff] at hg
    obtain ⟨pre, hp, rfl⟩ := hg
    exact (hi.distinct dk pre hp).sublist ((filter_sublist).map _)
  index := by
    intro hk key
    rw [get_hashedIndex_commitPendingChanges]
    simp only [get_data_commitPendingChanges hft, map_eq_some_iff]
    have hn : ∀ w : KVWrite, hk.pvtkeyHash = hash w.key →
        hk.dataKey.hashedIndexKey hash w = hk := fun w hw =>
      hashedIndexKey_eq_iff.mpr ⟨rfl, hw⟩
    constructor
    · intro hg
      split_ifs at hg with hd
      obtain ⟨v, hdt, w, hw, rfl, hy⟩ := (hi.index hk key).mp hg
      refine ⟨_, ⟨v, hdt, rfl⟩, w, ?_, rfl, hy⟩
      simp only [CollPvtRwSet.filterWrites, mem_filter, decide_eq_true_eq, hn w hy]
      exact ⟨hw, hd⟩
    · rintro ⟨_, ⟨v, hdt, rfl⟩, w, hw, rfl, hy⟩
      simp only [CollPvtRwSet.filterWrites, mem_filter, decide_eq_true_eq, hn w hy] at hw
      rw [if_neg hw.2]
      exact (hi.index hk w.key).mpr ⟨v, hdt, w, hw.1, rfl, hy⟩

section MarkedSteps

variable {db : StoreDB} {markers : List (PurgeMarkerKey × Height)}
  {current : Option (PurgeMarkerKey × Height)} {index : List HashedIndexEntry}
  {p : PurgeUpdatesProcessor}

theorem processorFits_new : ProcessorFits hash db newPurgeUpdatesProcessor where
  trimmed := by
    intro _ _ hg
    simp [newPurgeUpdatesProcessor] at hg
  deleted := by simp [newPurgeUpdatesProcessor]

theorem markedFits_start (hb : Bounded db) :
    MarkedFits hash db db.purgeMarker.entries none [] newPurgeUpdatesProcessor where
  processor := processorFits_new
  stored := by simp
  fresh := by simp
  once := nodup_nil
  processed := by simp [newPurgeUpdatesProcessor]
  processing := by simp
  indexSource := by simp
  deletedSource := by simp [newPurgeUpdatesProcessor]
  distinct := by
    have hky : (db.purgeMarker.entries.map Prod.fst).Nodup := db.purgeMarker.keys_nodup
    simpa [taken, newPurgeUpdatesProcessor] using hky
  bounded := by
    intro marker hm
    have he : marker ∈ db.purgeMarker.entries := by
      simpa [taken, newPurgeUpdatesProcessor] using hm
    exact hb.purgeMarker marker.1 marker.2 (get_eq_some_iff.mpr he)

theorem markedFits_process (hhs : Injective hash) (hi : IndexFits hash db)
    (hft : MarkedFits hash db markers current (e :: index) p) :
    MarkedFits hash db markers current index (p.process db e) where
  processor := processorFits_process hhs hi hft.processor (hft.stored e mem_cons_self)
  stored := fun other ho =>
    hft.stored other (mem_cons_of_mem e ho)
  fresh := by
    intro other ho
    have hon := hft.once
    rw [map_cons, nodup_cons] at hon
    simp only [PurgeUpdatesProcessor.process, mem_cons, not_or]
    refine ⟨?_, hft.fresh other (mem_cons_of_mem e ho)⟩
    intro heq
    exact hon.1 (heq ▸ mem_map_of_mem ho)
  once := by
    have hon := hft.once
    rw [map_cons, nodup_cons] at hon
    exact hon.2
  processed := fun marker hmr hk key hg hy hle =>
    mem_cons_of_mem e.1 (hft.processed marker hmr hk key hg hy hle)
  processing := by
    intro marker hmr hk key hg hy hle
    rcases hft.processing marker hmr hk key hg hy hle with hdeleted | hm
    · exact .inl (mem_cons_of_mem e.1 hdeleted)
    · rcases mem_cons.mp hm with rfl | hlat
      · exact .inl mem_cons_self
      · exact .inr hlat
  indexSource := fun other ho =>
    hft.indexSource other (mem_cons_of_mem e ho)
  deletedSource := by
    intro hk hm
    rcases mem_cons.mp hm with rfl | hold
    · obtain ⟨marker, hmr, hs⟩ := hft.indexSource e mem_cons_self
      exact ⟨marker, mem_append_right _ (mem_toList.mpr hmr), hs⟩
    · exact hft.deletedSource hk hold
  distinct := hft.distinct
  bounded := hft.bounded

theorem markedFits_flush (hft : MarkedFits hash db markers current index p) :
    MarkedFits hash (db.commitPendingChanges p) markers current index newPurgeUpdatesProcessor where
  processor := processorFits_new
  stored := by
    intro e he
    rw [get_hashedIndex_commitPendingChanges, if_neg (hft.fresh e he)]
    exact hft.stored e he
  fresh := by simp [newPurgeUpdatesProcessor]
  once := hft.once
  processed := by simp [newPurgeUpdatesProcessor]
  processing := by
    intro marker hmr hk key hg hy hle
    rw [get_hashedIndex_commitPendingChanges] at hg
    split_ifs at hg with hdeleted
    exact .inr ((hft.processing marker hmr hk key hg hy hle).resolve_left hdeleted)
  indexSource := hft.indexSource
  deletedSource := by simp [newPurgeUpdatesProcessor]
  distinct := by
    have hds := hft.distinct
    simp only [taken, newPurgeUpdatesProcessor, nil_append, append_assoc, map_append] at hds ⊢
    exact (nodup_append.mp hds).2.1
  bounded := by
    intro marker hmr
    apply hft.bounded marker
    simp only [taken, newPurgeUpdatesProcessor, nil_append, append_assoc] at hmr ⊢
    exact mem_append_right _ hmr

variable {marker : PurgeMarkerKey × Height}

theorem markedFits_finishMarker (hft : MarkedFits hash db markers (some marker) [] p) :
    MarkedFits hash db markers none [] (p.addProcessedPurgeMarkerForDeletion marker) where
  processor := ⟨hft.processor.trimmed, hft.processor.deleted⟩
  stored := by simp
  fresh := by simp
  once := nodup_nil
  processed := by
    intro other ho hk key hg hy hle
    rcases mem_cons.mp ho with rfl | hold
    · exact (hft.processing other rfl hk key hg hy hle).resolve_right not_mem_nil
    · exact hft.processed other hold hk key hg hy hle
  processing := by simp
  indexSource := by simp
  deletedSource := by
    intro hk hm
    obtain ⟨other, ho, hs⟩ := hft.deletedSource hk hm
    refine ⟨other, ?_, hs⟩
    simp only [toList_some, mem_append, mem_singleton] at ho
    simp only [PurgeUpdatesProcessor.addProcessedPurgeMarkerForDeletion,
      toList_none, append_nil, mem_cons]
    exact ho.symm
  distinct := by
    have hds := hft.distinct
    simp only [taken, toList_some, append_assoc, singleton_append, map_append, map_cons] at hds
    simp only [taken, PurgeUpdatesProcessor.addProcessedPurgeMarkerForDeletion,
      toList_none, append_nil, cons_append, map_append, map_cons]
    exact (perm_middle.nodup_iff).mp hds
  bounded := by
    intro other ho
    apply hft.bounded other
    simp only [taken, PurgeUpdatesProcessor.addProcessedPurgeMarkerForDeletion, toList_none,
      toList_some, append_nil, cons_append, mem_cons, mem_append, not_mem_nil, or_false] at ho ⊢
    tauto

theorem mem_hashedIndexUpTo :
    e ∈ db.hashedIndexUpTo marker ↔
      db.hashedIndex.get e.1 = some e.2 ∧ e.1.markerKey = marker.1 ∧
        e.1.height.compare marker.2 ≤ 0 := by
  rw [StoreDB.hashedIndexUpTo, ← get_eq_some_iff, get_restrict]
  by_cases hk : e.1.markerKey = marker.1
  · by_cases hle : e.1.height.compare marker.2 ≤ 0 <;> simp [hk, hle]
  · simp [hk]

theorem markedFits_nextMarker (hft : MarkedFits hash db (marker :: markers) none [] p) :
    MarkedFits hash db markers (some marker) (db.hashedIndexUpTo marker) p where
  processor := hft.processor
  stored := fun e he => (mem_hashedIndexUpTo.mp he).1
  fresh := by
    intro e he hd
    obtain ⟨other, ho, hy, -⟩ := hft.deletedSource e.1 hd
    have heq := (mem_hashedIndexUpTo.mp he).2.1
    have hds := hft.distinct
    simp only [taken, toList_none, append_nil, map_append, map_cons] at hds ho
    rw [nodup_append] at hds
    exact hds.2.2 other.1 (mem_map_of_mem ho) marker.1 mem_cons_self (hy.symm.trans heq)
  once := keys_nodup (db.hashedIndex.restrict _)
  processed := hft.processed
  processing := by
    intro _ ho _ _ hg hy hle
    cases ho
    exact .inr (mem_hashedIndexUpTo.mpr ⟨hg, hy, hle⟩)
  indexSource := fun e he =>
    ⟨marker, rfl, (mem_hashedIndexUpTo.mp he).2⟩
  deletedSource := by
    intro hk hm
    obtain ⟨other, ho, hs⟩ := hft.deletedSource hk hm
    refine ⟨other, ?_, hs⟩
    simp only [toList_none, append_nil] at ho
    exact mem_append_left _ ho
  distinct := by simpa [taken] using hft.distinct
  bounded := by simpa [taken] using hft.bounded

end MarkedSteps

structure StoreFits (hash : KeyHash) (db : StoreDB) (purger : Option Purger) : Prop where
  bounded : Bounded db
  index : IndexFits hash db
  purger : ∀ running ∈ purger, PurgerFits hash db running

theorem storeFits_step {pg : Purger} (ex : Bool)
    (hhs : Injective hash) (hft : StoreFits hash db (some pg)) :
    StoreFits hash (pg.step hash db ex).1 (pg.step hash db ex).2 := by
  obtain ⟨hb, hi, hp⟩ := hft
  have hr := hp pg rfl
  unfold Purger.step
  split
  next e _ =>
    refine ⟨bounded_purgeExpiryEntry e hb, indexFits_purgeExpiryEntry e hi, ?_⟩
    rintro _ ⟨⟩
    obtain ⟨hnd, hs⟩ := hr
    rw [map_cons, nodup_cons] at hnd
    refine ⟨hnd.2, ?_⟩
    intro other ho
    have hne : other.1 ≠ e.1 := by
      intro heq
      exact hnd.1 (heq ▸ mem_map_of_mem ho)
    change (db.expiry.erase e.1).get other.1 = _
    rw [get_erase, if_neg hne]
    exact hs other (mem_cons_of_mem e ho)
  · refine ⟨hb, hi, ?_⟩
    rintro _ ⟨⟩
    exact markedFits_start hb
  next =>
    have hnx := markedFits_process hhs hi hr
    dsimp only
    split
    · refine ⟨bounded_commitPendingChanges hnx.processor hb,
        indexFits_commitPendingChanges hi hnx.processor, ?_⟩
      rintro _ ⟨⟩
      exact markedFits_flush hnx
    · refine ⟨hb, hi, ?_⟩
      rintro _ ⟨⟩
      exact hnx
  · refine ⟨hb, hi, ?_⟩
    rintro _ ⟨⟩
    exact markedFits_finishMarker hr
  · refine ⟨hb, hi, ?_⟩
    rintro _ ⟨⟩
    exact markedFits_nextMarker hr
  next p =>
    have hmr : MarkedFits hash db [] none [] p := hr
    refine ⟨bounded_commitPendingChanges hmr.processor hb,
      indexFits_commitPendingChanges hi hmr.processor, ?_⟩
    rintro _ ⟨⟩

theorem storeFits_commit
    {purger : Option Purger} (hhs : Injective hash) (hcom : db.commit hash btl input = .ok next)
    (hds : input.Distinct) (hft : StoreFits hash db purger) : StoreFits hash next purger where
  bounded := bounded_commit hcom hft.bounded
  index := indexFits_commit hcom hhs hft.bounded hft.index hds
  purger := fun running hr =>
    purgerFits_commit hcom hft.bounded (hft.purger running hr)

theorem storeFits_empty : StoreFits hash emptyStore none where
  bounded :=
    { data := by simp [emptyStore]
      expiry := by simp [emptyStore]
      purgeMarker := by simp [emptyStore] }
  index :=
    { named := by simp [emptyStore]
      distinct := by simp [emptyStore]
      index := by simp [emptyStore] }
  purger := by simp

end Pvtdatastorage
end FabricSequencer
