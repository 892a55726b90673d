import FabricSequencer.PvtDataExpiry

/-!
# The lists of missing data

A list of missing data is a map from a namespace, a collection and a block to
the transactions of the block whose data is missing.  A transaction, a
namespace and a collection together are a `DataKey`, so a list is read as a
set of such keys.  A commit adds to the sets what its input names.
-/

open SortedMap

namespace FabricSequencer.Pvtdatastorage

variable {hash : KeyHash} {btlPolicy : BTLPolicy}

def MissingData.Has (list : MissingData) (dk : DataKey) : Prop :=
  ∃ bitmap, list.get dk.nsCollBlk = some bitmap ∧ dk.txNum ∈ bitmap

def MissingData.Records (list : MissingData) (key : NsCollBlk) : Prop :=
  ∃ bitmap, list.get key = some bitmap

variable {list : MissingData} {dk : DataKey}

theorem MissingData.Has.records (hh : list.Has dk) : list.Records dk.nsCollBlk := by
  obtain ⟨bm, hg, -⟩ := hh
  exact ⟨bm, hg⟩

theorem not_has_empty : ¬ MissingData.Has empty dk := by
  simp [MissingData.Has]

variable {key : NsCollBlk}

theorem not_records_empty : ¬ MissingData.Records empty key := by
  simp [MissingData.Records]

theorem dataKey_eq_iff {dk other : DataKey} :
    dk = other ↔ dk.nsCollBlk = other.nsCollBlk ∧ dk.txNum = other.txNum := by
  rcases dk with ⟨_, _, _, _⟩
  rcases other with ⟨_, _, _, _⟩
  simp only [DataKey.nsCollBlk, DataKey.mk.injEq, NsCollBlk.mk.injEq]
  tauto

theorem has_setMissing {tn : ℕ} :
    (setMissing list key tn).Has dk ↔ list.Has dk ∨ (dk.nsCollBlk = key ∧ dk.txNum = tn) := by
  unfold setMissing MissingData.Has
  rw [get_insert]
  split_ifs with hkey
  · rw [← hkey]
    cases list.get dk.nsCollBlk with
    | none => simp
    | some => simp [or_comm]
  · simp [hkey]

theorem records_setMissing {key other : NsCollBlk} {tn : ℕ} :
    (setMissing list key tn).Records other ↔ list.Records other ∨ other = key := by
  unfold setMissing MissingData.Records
  rw [get_insert]
  split_ifs with hkey <;> simp [hkey]

variable {list changes : MissingData}

theorem records_insertAll :
    MissingData.Records (list.insertAll changes.entries) key ↔
      changes.Records key ∨ list.Records key := by
  unfold MissingData.Records
  rw [get_insertAll_entries]
  cases changes.get key <;> simp

theorem has_insertAll :
    MissingData.Has (list.insertAll changes.entries) dk ↔
      changes.Has dk ∨ (¬ changes.Records dk.nsCollBlk ∧ list.Has dk) := by
  unfold MissingData.Has MissingData.Records
  rw [get_insertAll_entries]
  cases changes.get dk.nsCollBlk <;> simp

variable {keys : List NsCollBlk}

theorem has_eraseAll :
    MissingData.Has (list.eraseAll keys) dk ↔ dk.nsCollBlk ∉ keys ∧ list.Has dk := by
  unfold MissingData.Has
  rw [get_eraseAll]
  split_ifs with hmem <;> simp [hmem]

theorem records_eraseAll :
    MissingData.Records (list.eraseAll keys) key ↔ key ∉ keys ∧ list.Records key := by
  unfold MissingData.Records
  rw [get_eraseAll]
  split_ifs with hmem <;> simp [hmem]

theorem mem_keys_iff_records : key ∈ list.keys ↔ list.Records key := by
  simp only [MissingData.Records, get_eq_some_iff, SortedMap.keys,
    List.mem_map, Prod.exists, exists_and_right, exists_eq_right]

/-! ## Commit -/

def CommitInput.Names (input : CommitInput) (eligible : Bool) (dk : DataKey) : Prop :=
  dk.blkNum = input.blockNum ∧
    ∃ missing, input.missingPvtData.get dk.txNum = some missing ∧
      ∃ m ∈ missing, m.isEligible = eligible ∧ m.nameSpace = dk.ns ∧ m.collection = dk.coll

def missingSide (eligible : Bool) (entries : MissingData × MissingData) : MissingData :=
  if eligible then entries.1 else entries.2

theorem addMissingEntries_iff (has : MissingData → Prop) (brings : NsCollBlk → ℕ → Prop)
    (hs : ∀ list key tn, has (setMissing list key tn) ↔ has list ∨ brings key tn) (hn : ¬ has empty)
    (el : Bool) (blk : ℕ) (missingPvtData : TxMissingPvtData) :
    has (missingSide el (prepareMissingDataEntries blk missingPvtData)) ↔
    ∃ tx ∈ missingPvtData.entries, ∃ m ∈ tx.2, m.isEligible = el ∧
      brings ⟨m.nameSpace, m.collection, blk⟩ tx.1 := by
  have he : ∀ tn (es : MissingData × MissingData) (m : MissingPvtData),
      has (missingSide el (addMissingEntry blk tn es m)) ↔
        has (missingSide el es) ∨ (m.isEligible = el ∧
          brings ⟨m.nameSpace, m.collection, blk⟩ tn) := by
    intro _ _ m
    cases el <;> cases hm : m.isEligible <;>
      simp [missingSide, addMissingEntry, hm, hs]
  have htx : ∀ (es : MissingData × MissingData) (tx : ℕ × List MissingPvtData),
      has (missingSide el (tx.2.foldl (addMissingEntry blk tx.1) es)) ↔
        has (missingSide el es) ∨
          ∃ m ∈ tx.2, m.isEligible = el ∧ brings ⟨m.nameSpace, m.collection, blk⟩ tx.1 := by
    intro es tx
    exact foldl_collects_iff (fun list => has (missingSide el list)) _ (he tx.1) tx.2 es
  have hsr : ¬ has (missingSide el (empty, empty)) := by
    cases el <;> exact hn
  have ha := foldl_collects_iff (fun list => has (missingSide el list))
    _ htx missingPvtData.entries (empty, empty)
  rw [or_iff_right hsr] at ha
  exact ha

theorem has_prepareMissingDataEntries (input : CommitInput) (el : Bool) :
    (missingSide el (prepareMissingDataEntries input.blockNum
      input.missingPvtData)).Has dk ↔ input.Names el dk := by
  have hr := addMissingEntries_iff
    (fun list => list.Has dk) (fun key tn => dk.nsCollBlk = key ∧ dk.txNum = tn)
    (fun list key tn => has_setMissing) not_has_empty el input.blockNum input.missingPvtData
  rw [hr]
  simp only [CommitInput.Names, get_eq_some_iff, Prod.exists, DataKey.nsCollBlk, NsCollBlk.mk.injEq]
  constructor
  · rintro ⟨_, missing, hmem, m, hm, hel, ⟨hns, hco, hb⟩, htx⟩
    subst htx
    exact ⟨hb, missing, hmem, m, hm, hel, hns.symm, hco.symm⟩
  · rintro ⟨hb, missing, hmem, m, hm, hel, hns, hco⟩
    exact ⟨dk.txNum, missing, hmem, m, hm, hel, ⟨hns.symm, hco.symm, hb⟩, rfl⟩

theorem blkNum_of_records_prepareMissingDataEntries (el : Bool)
    {blk : ℕ} {missingPvtData : TxMissingPvtData}
    (hrc : (missingSide el (prepareMissingDataEntries blk missingPvtData)).Records key) :
    key.blkNum = blk := by
  obtain ⟨_, -, _, -, -, rfl⟩ := (addMissingEntries_iff
    (fun list => list.Records key) (fun rec _ => key = rec)
    (fun list rec tn => records_setMissing) not_records_empty el
    blk missingPvtData).mp hrc
  rfl

def StoreDB.Misses (db : StoreDB) (dk : DataKey) : Prop :=
  db.elgPrioMissingData.Has dk ∨ db.elgDeprioMissingData.Has dk ∨ db.inelgMissingData.Has dk

def StoreDB.RecordsMissing (db : StoreDB) (key : NsCollBlk) : Prop :=
  db.elgPrioMissingData.Records key ∨ db.elgDeprioMissingData.Records key ∨
    db.inelgMissingData.Records key

theorem StoreDB.Misses.records {db : StoreDB}
    (hms : db.Misses dk) : db.RecordsMissing dk.nsCollBlk :=
  hms.imp MissingData.Has.records (Or.imp MissingData.Has.records MissingData.Has.records)

def MissingBounded (db : StoreDB) : Prop :=
  ∀ key, db.RecordsMissing key → key.blkNum < db.nextBlockNum

section Commit

variable {db next : StoreDB} {input : CommitInput}
  (hcom : db.commit hash btlPolicy input = .ok next)

include hcom

theorem elgDeprioMissingData_commit : next.elgDeprioMissingData = db.elgDeprioMissingData := by
  obtain ⟨-, _, -, rfl⟩ := commit_eq_ok hcom
  rfl

theorem elgPrioMissingData_commit :
    next.elgPrioMissingData = db.elgPrioMissingData.insertAll
      (prepareMissingDataEntries input.blockNum input.missingPvtData).1.entries := by
  obtain ⟨-, _, hpp, rfl⟩ := commit_eq_ok hcom
  obtain ⟨-, -, hl, -⟩ := prepareStoreEntries_eq_ok hpp
  rw [← hl]
  rfl

theorem inelgMissingData_commit :
    next.inelgMissingData = db.inelgMissingData.insertAll
      (prepareMissingDataEntries input.blockNum input.missingPvtData).2.entries := by
  obtain ⟨-, _, hpp, rfl⟩ := commit_eq_ok hcom
  obtain ⟨-, -, -, hin, -⟩ := prepareStoreEntries_eq_ok hpp
  rw [← hin]
  rfl

variable {dk : DataKey}

theorem has_insertAll_commit (hb : MissingBounded db) {list : MissingData} (el : Bool)
    (hls : ∀ key, list.Records key → db.RecordsMissing key) :
    MissingData.Has (list.insertAll (missingSide el
      (prepareMissingDataEntries input.blockNum input.missingPvtData)).entries) dk ↔
      input.Names el dk ∨ list.Has dk := by
  rw [has_insertAll, has_prepareMissingDataEntries]
  constructor
  · rintro (hn | ⟨-, hl⟩)
    · exact .inl hn
    · exact .inr hl
  rintro (hn | hl)
  · exact .inl hn
  refine .inr ⟨?_, hl⟩
  intro hrc
  have hk := blkNum_of_records_prepareMissingDataEntries el hrc
  have hlt := hb _ (hls _ hl.records)
  obtain ⟨_, -⟩ := commit_eq_ok hcom
  omega

theorem has_elgPrio_commit (hb : MissingBounded db) :
    next.elgPrioMissingData.Has dk ↔ input.Names true dk ∨ db.elgPrioMissingData.Has dk := by
  rw [elgPrioMissingData_commit hcom]
  exact has_insertAll_commit hcom hb true fun key hrc =>
    .inl hrc

theorem has_inelg_commit (hb : MissingBounded db) :
    next.inelgMissingData.Has dk ↔ input.Names false dk ∨ db.inelgMissingData.Has dk := by
  rw [inelgMissingData_commit hcom]
  exact has_insertAll_commit hcom hb false fun key hrc =>
    .inr (.inr hrc)

theorem recordsMissing_commit {key : NsCollBlk} (hrc : next.RecordsMissing key) :
    db.RecordsMissing key ∨ key.blkNum = input.blockNum ∧
      ((prepareMissingDataEntries input.blockNum input.missingPvtData).1.Records key ∨
        (prepareMissingDataEntries input.blockNum input.missingPvtData).2.Records key) := by
  unfold StoreDB.RecordsMissing at hrc
  rw [elgPrioMissingData_commit hcom, elgDeprioMissingData_commit hcom,
    inelgMissingData_commit hcom, records_insertAll, records_insertAll] at hrc
  rcases hrc with (hn | hold) | hold | hn | hold
  · exact .inr ⟨blkNum_of_records_prepareMissingDataEntries true hn, .inl hn⟩
  · exact .inl (.inl hold)
  · exact .inl (.inr (.inl hold))
  · exact .inr ⟨blkNum_of_records_prepareMissingDataEntries false hn, .inr hn⟩
  · exact .inl (.inr (.inr hold))

theorem missingBounded_commit (hb : MissingBounded db) : MissingBounded next := by
  intro key hrc
  rw [nextBlockNum_commit hcom]
  obtain ⟨_, -⟩ := commit_eq_ok hcom
  rcases recordsMissing_commit hcom hrc with hold | ⟨_, -⟩
  · have hlt := hb key hold
    omega
  · omega

theorem expiryGrows_commit {blkNum : ℕ} (hlt : blkNum < db.nextBlockNum) :
    ExpiryGrows db next blkNum := by
  intro _ v hval
  refine ⟨v, ?_, v.grows_refl⟩
  rw [get_expiry_commit_of_lt hcom hlt]
  exact hval

theorem listed_commit :
    (∀ e ∈ prepareDataEntries input.blockNum input.pvtData, ListedData btlPolicy next e.1) ∧
    ∀ key, key.blkNum = input.blockNum →
      ((prepareMissingDataEntries input.blockNum input.missingPvtData).1.Records key ∨
        (prepareMissingDataEntries input.blockNum input.missingPvtData).2.Records key) →
      ListedMissing btlPolicy next key := by
  obtain ⟨-, es, hpp, rfl⟩ := commit_eq_ok hcom
  obtain ⟨hdt, -, hl, hin, hex, -⟩ := prepareStoreEntries_eq_ok hpp
  obtain ⟨all, ha, hpr, hel, hil⟩ := prepareExpiryEntries_eq_ok hex
  have hg : ∀ exp v, all.get exp = some v →
      (db.putEntries input.blockNum es).expiry.get ⟨exp, input.blockNum⟩ = some v := by
    intro exp v hval
    change (db.expiry.insertAll es.expiryEntries).get _ = _
    rw [ha]
    have hky : ((all.entries.map fun e =>
        ((⟨e.1, input.blockNum⟩ : ExpiryKey), e.2)).map Prod.fst).Nodup := by
      rw [List.map_map]
      refine List.Nodup.of_map ExpiryKey.expiringBlk ?_
      rw [List.map_map]
      exact all.keys_nodup
    apply (get_insertAll_iff hky).mpr
    refine .inl (List.mem_map.mpr ⟨(exp, v), ?_, rfl⟩)
    exact get_eq_some_iff.mp hval
  refine ⟨?_, ?_⟩
  · intro e he exp hx hf
    have hb := (mem_prepareDataEntries he).1
    rw [← hdt] at he
    obtain ⟨v, hval, hls⟩ := hpr e he exp hx hf
    rw [hb]
    exact ⟨v, hg exp v hval, mem_deriveDataKeys.mpr ⟨hls, hb⟩⟩
  · intro key hb hrc exp hx hf
    have hli : all.ListsMissing btlPolicy key := by
      rcases hrc with hrc | hrc
      · exact hel key (hl ▸ mem_keys_iff_records.mpr hrc)
      · exact hil key (hin ▸ mem_keys_iff_records.mpr hrc)
    obtain ⟨v, hval, hls⟩ := hli exp hx hf
    rw [hb]
    exact ⟨v, hg exp v hval, mem_deriveMissingDataKeys.mpr ⟨hls, hb⟩⟩

end Commit

end FabricSequencer.Pvtdatastorage
