import FabricSequencer.PvtDataOldBlocks

/-!
# The representation invariant of the private data store

`Represents` says how the families of keys belong together: the index has the
key writes of the stored data, data is missing in at most one list and only
while it is not stored, and everything that expires is listed in the expiry
entry that removes it.  For each operation this module says which inputs keep
it.
-/

namespace FabricSequencer.Pvtdatastorage

open SortedMap Option

variable {hash : KeyHash} {btl : BTLPolicy}

structure Represents (hash : KeyHash) (btlPolicy : BTLPolicy) (db : StoreDB) : Prop where
  index : IndexFits hash db
  prioOnly : ∀ dk, db.elgPrioMissingData.Has dk →
    ¬ db.elgDeprioMissingData.Has dk ∧ ¬ db.inelgMissingData.Has dk
  deprioOnly : ∀ dk, db.elgDeprioMissingData.Has dk → ¬ db.inelgMissingData.Has dk
  absent : ∀ dk, db.Misses dk → db.data.get dk = none
  listedData : ∀ dk v, db.data.get dk = some v → ListedData btlPolicy db dk
  listedMissing : ∀ key, db.RecordsMissing key → ListedMissing btlPolicy db key

theorem represents_empty : Represents hash btl emptyStore where
  index := storeFits_empty.index
  prioOnly := fun dk hh => absurd hh not_has_empty
  deprioOnly := fun dk hh => absurd hh not_has_empty
  absent := by simp [emptyStore]
  listedData := by simp [emptyStore]
  listedMissing := by
    rintro _ (hrc | hrc | hrc)
    all_goals exact absurd hrc not_records_empty

def CommitInput.Contradicts (input : CommitInput) : Prop :=
  ∃ dk, (input.Names true dk ∧ input.Names false dk) ∨
    ∃ eligible v, input.Names eligible dk ∧
      (dk, v) ∈ prepareDataEntries input.blockNum input.pvtData

section Commit

variable {db next : StoreDB} {input : CommitInput} (hcom : db.commit hash btl input = .ok next)

include hcom

theorem blkNum_lt_of_misses (hb : MissingBounded db) {dk : DataKey}
    (hms : db.Misses dk) : dk.blkNum < input.blockNum := by
  obtain ⟨_, -⟩ := commit_eq_ok hcom
  have hlt : dk.blkNum < db.nextBlockNum := hb _ hms.records
  omega

theorem misses_commit (hb : MissingBounded db) {dk : DataKey} :
    next.Misses dk ↔ (∃ el, input.Names el dk) ∨ db.Misses dk := by
  unfold StoreDB.Misses
  rw [has_elgPrio_commit hcom hb, has_inelg_commit hcom hb,
    elgDeprioMissingData_commit hcom, Bool.exists_bool]
  tauto

theorem not_contradicts_of_represents (hb : MissingBounded db)
    (hds : input.Distinct) (hrep : Represents hash btl next) : ¬ input.Contradicts := by
  rintro ⟨dk, ⟨hm, ho⟩ | ⟨el, _, hnm, hdt⟩⟩
  · have hpr := (has_elgPrio_commit hcom hb).mpr (.inl hm)
    have hin := (has_inelg_commit hcom hb).mpr (.inl ho)
    exact (hrep.prioOnly dk hpr).2 hin
  · have habs := hrep.absent dk ((misses_commit hcom hb).mpr (.inl ⟨el, hnm⟩))
    have hs := get_data_commit_of_mem hcom hds hdt
    rw [habs] at hs
    cases hs

theorem represents_commit (hhash : Function.Injective hash)
    (hdt : Bounded db) (hb : MissingBounded db) (hds : input.Distinct)
    (hrep : Represents hash btl db) (hcn : ¬ input.Contradicts) : Represents hash btl next := by
  obtain ⟨_, -⟩ := commit_eq_ok hcom
  obtain ⟨hs, hls⟩ := listed_commit hcom
  have hn : ∀ el dk, input.Names el dk → ¬ db.Misses dk := by
    intro _ _ hnm hms
    have hlt := blkNum_lt_of_misses hcom hb hms
    have hl := hnm.1
    omega
  exact
    { index := indexFits_commit hcom hhash hdt hrep.index hds
      prioOnly := by
        intro dk hpr
        rw [elgDeprioMissingData_commit hcom, has_inelg_commit hcom hb, not_or]
        rcases (has_elgPrio_commit hcom hb).mp hpr with hnm | hold
        · have hfr := hn true dk hnm
          refine ⟨fun hd => hfr (.inr (.inl hd)), ?_, fun hin => hfr (.inr (.inr hin))⟩
          exact fun ho => hcn ⟨dk, .inl ⟨hnm, ho⟩⟩
        · obtain ⟨hd, hin⟩ := hrep.prioOnly dk hold
          exact ⟨hd, fun ho => hn false dk ho (.inl hold), hin⟩
      deprioOnly := by
        intro dk hd
        rw [elgDeprioMissingData_commit hcom] at hd
        rw [has_inelg_commit hcom hb, not_or]
        exact ⟨fun ho => hn false dk ho (.inr (.inl hd)), hrep.deprioOnly dk hd⟩
      absent := by
        intro dk hms
        rcases (misses_commit hcom hb).mp hms with ⟨el, hnm⟩ | hold
        · cases hg : next.data.get dk with
          | none => rfl
          | some v =>
            rcases mem_of_get_data_commit hcom hg with hm | hstored
            · exact absurd ⟨dk, .inr ⟨el, v, hnm, hm⟩⟩ hcn
            · have hlt := hdt.data dk v hstored
              have hl := hnm.1
              omega
        · have hlt := blkNum_lt_of_misses hcom hb hold
          rw [get_data_commit_of_lt hcom (by omega)]
          exact hrep.absent dk hold
      listedData := by
        intro dk v hg
        rcases mem_of_get_data_commit hcom hg with hm | hold
        · exact hs _ hm
        · exact (hrep.listedData dk v hold).mono (expiryGrows_commit hcom (hdt.data dk v hold))
      listedMissing := by
        intro key hrc
        rcases recordsMissing_commit hcom hrc with hold | ⟨hl, hr⟩
        · exact (hrep.listedMissing key hold).mono (expiryGrows_commit hcom (hb key hold))
        · exact hls key hl hr }

end Commit

theorem represents_purgeExpiryEntry {db : StoreDB} {e : ExpiryKey × ExpiryData}
    (he : db.expiry.get e.1 = some e.2) (hrep : Represents hash btl db) :
    Represents hash btl (db.purgeExpiryEntry hash e) := by
  have ho : ∀ key value, db.expiry.get key = some value → key ≠ e.1 →
      (db.purgeExpiryEntry hash e).expiry.get key = some value := by
    intro key _ hval hne
    change (db.expiry.erase e.1).get key = _
    rw [get_erase, if_neg hne]
    exact hval
  have hh : ∀ {list : MissingData} {dk : DataKey},
      MissingData.Has (list.eraseAll (deriveMissingDataKeys e.1 e.2)) dk → list.Has dk :=
    fun hlf => (has_eraseAll.mp hlf).2
  exact
    { index := indexFits_purgeExpiryEntry e hrep.index
      prioOnly := by
        intro dk hpr
        obtain ⟨hd, hin⟩ := hrep.prioOnly dk (hh hpr)
        exact ⟨fun hlf => hd (hh hlf), fun hlf => hin (hh hlf)⟩
      deprioOnly := fun dk hd hin =>
        hrep.deprioOnly dk (hh hd) (hh hin)
      absent := by
        intro dk hms
        change (db.data.eraseAll _).get dk = none
        rw [get_eraseAll, hrep.absent dk (hms.imp hh (Or.imp hh hh)), ite_self]
      listedData := by
        intro dk v hg exp hx hf
        obtain ⟨hlf, hs⟩ := get_data_of_purgeExpiryEntry hg
        obtain ⟨value, hval, hls⟩ := hrep.listedData dk v hs exp hx hf
        refine ⟨value, ho _ value hval ?_, hls⟩
        rintro hk
        rw [hk, he] at hval
        cases hval
        rw [hk] at hls
        exact hlf hls
      listedMissing := by
        intro key hrc exp hx hf
        have hlf : key ∉ deriveMissingDataKeys e.1 e.2 ∧ db.RecordsMissing key := by
          rcases hrc with hpr | hd | hin
          · exact ⟨(records_eraseAll.mp hpr).1, .inl (records_eraseAll.mp hpr).2⟩
          · exact ⟨(records_eraseAll.mp hd).1, .inr (.inl (records_eraseAll.mp hd).2)⟩
          · exact ⟨(records_eraseAll.mp hin).1, .inr (.inr (records_eraseAll.mp hin).2)⟩
        obtain ⟨value, hval, hls⟩ := hrep.listedMissing key hlf.2 exp hx hf
        refine ⟨value, ho _ value hval ?_, hls⟩
        rintro hk
        rw [hk, he] at hval
        cases hval
        rw [hk] at hls
        exact hlf.1 hls }

theorem represents_commitPendingChanges {db : StoreDB} {batch : PurgeUpdatesProcessor}
    (hft : ProcessorFits hash db batch) (hrep : Represents hash btl db) :
    Represents hash btl (db.commitPendingChanges batch) :=
  { hrep with
    index := indexFits_commitPendingChanges hrep.index hft
    absent := by
      intro dk hms
      rw [get_data_commitPendingChanges hft, hrep.absent dk hms]
      rfl
    listedData := by
      intro dk _ hg
      rw [get_data_commitPendingChanges hft, map_eq_some_iff] at hg
      obtain ⟨pre, hp, -⟩ := hg
      exact hrep.listedData dk pre hp }

/-! ## Data of old blocks -/

section OldBlocks

variable {db next : StoreDB} {dataEntries : List DataEntry} {unreconciled : List DataKey}
  {es : OldBlockEntries} (hcm : CommitsOldBlocks btl hash db next dataEntries unreconciled es)

include hcm

theorem get_data_oldBlocks (dk : DataKey) :
    next.data.get dk = (es.dataEntries.get dk).or (db.data.get dk) := by
  rw [hcm.data]
  exact get_insertAll_entries db.data es.dataEntries dk

theorem expiryGrows_oldBlocks (blkNum : ℕ) : ExpiryGrows db next blkNum := by
  intro exp value hval
  rw [hcm.expiry, get_insertAll_entries]
  cases hg : es.expiryEntries.get ⟨exp, blkNum⟩ with
  | none => exact ⟨value, by rw [none_or]; exact hval, value.grows_refl⟩
  | some lt =>
    obtain ⟨_, hp, hgr⟩ := hcm.prepared.expirySource _ lt hg
    rw [hval] at hp
    cases hp
    exact ⟨lt, rfl, hgr⟩

theorem listedData_oldBlocks {dk : DataKey} {v : CollPvtRwSet}
    (hg : es.dataEntries.get dk = some v) :
    ListedData btl next dk := by
  intro exp hx hf
  obtain ⟨value, hval, hpr⟩ := hcm.prepared.listed dk v hg exp hx hf
  refine ⟨value, ?_, mem_deriveDataKeys.mpr ⟨hpr, rfl⟩⟩
  rw [hcm.expiry, get_insertAll_entries, hval, some_or]

variable (hmiss : ∀ e ∈ dataEntries, db.Misses e.1) (hrep : Represents hash btl db)

include hmiss hrep

theorem mem_keys_oldBlocks {dk : DataKey} :
    dk ∈ es.dataEntries.keys ↔ ∃ v, (dk, v) ∈ dataEntries := by
  constructor
  · intro hm
    obtain ⟨v, hg⟩ := mem_keys_iff.mp hm
    exact ⟨v, hcm.prepared.source dk v hg⟩
  · rintro ⟨v, hm⟩
    exact mem_keys_iff.mpr (hcm.complete (dk, v) hm (hrep.listedMissing _ (hmiss _ hm).records))

section

variable (hhash : Function.Injective hash)
  (hwrites : ∀ e ∈ dataEntries, e.2.collectionName = e.1.coll ∧
    (e.2.kvRwSet.writes.map KVWrite.key).Nodup)

include hhash hwrites

theorem indexFits_oldBlocks : IndexFits hash next := by
  refine indexFits_insertAll hhash hrep.index es.dataEntries.keys_nodup ?_ hcm.data hcm.hashedIndex
  intro e he
  have hm := hcm.prepared.source e.1 e.2 (get_eq_some_iff.mpr he)
  exact ⟨hrep.absent _ (hmiss _ hm), hwrites _ hm⟩

theorem represents_oldBlocks (hun : ∀ dk ∈ unreconciled, db.Misses dk ∧ ∀ v, (dk, v) ∉ dataEntries)
    (hdt : ∀ e ∈ dataEntries, ¬ db.inelgMissingData.Has e.1)
    (hmv : ∀ dk ∈ unreconciled, db.inelgMissingData.Has dk →
      ¬ db.elgPrioMissingData.Records dk.nsCollBlk) :
    Represents hash btl next := by
  have hky : ∀ dk, dk ∈ es.dataEntries.keys ↔ _ :=
    fun dk => mem_keys_oldBlocks hcm hmiss hrep
  exact
    { index := indexFits_oldBlocks hcm hmiss hrep hhash hwrites
      prioOnly := by
        intro dk hpr
        obtain ⟨⟨hl, -⟩, hkept⟩ := (hcm.prio dk).mp hpr
        obtain ⟨hd, hin⟩ := hrep.prioOnly dk hl
        rw [hcm.deprio, hcm.inelg]
        refine ⟨?_, hin⟩
        rintro (⟨hbo, -⟩ | ⟨hm, -⟩)
        · exact hd hbo
        · exact hkept hm
      deprioOnly := by
        intro dk hd
        rw [hcm.inelg]
        rcases (hcm.deprio dk).mp hd with ⟨hl, -⟩ | ⟨hm, hrc⟩
        · exact hrep.deprioOnly dk hl
        · exact fun hin => hmv dk hm hin hrc
      absent := by
        intro dk hms
        -- What is still missing is not among the write sets, and was missing.
        have hp : dk ∉ es.dataEntries.keys ∧ db.Misses dk := by
          unfold StoreDB.Misses at hms
          rw [hcm.prio, hcm.deprio, hcm.inelg] at hms
          rcases hms with ⟨⟨hl, hlf⟩, -⟩ | (⟨hl, hlf⟩ | ⟨hm, -⟩) | hin
          · exact ⟨hlf, .inl hl⟩
          · exact ⟨hlf, .inr (.inl hl)⟩
          · refine ⟨?_, (hun dk hm).1⟩
            rw [hky]
            rintro ⟨v, hv⟩
            exact (hun dk hm).2 v hv
          · refine ⟨?_, .inr (.inr hin)⟩
            rw [hky]
            rintro ⟨_, hv⟩
            exact hdt _ hv hin
        have hno : es.dataEntries.get dk = none := by
          cases hg : es.dataEntries.get dk with
          | none => rfl
          | some v =>
            have hm := mem_keys_iff.mpr ⟨v, hg⟩
            exact absurd hm hp.1
        rw [get_data_oldBlocks hcm, hno, hrep.absent dk hp.2]
        rfl
      listedData := by
        intro dk v hg
        rw [get_data_oldBlocks hcm] at hg
        cases hn : es.dataEntries.get dk with
        | none =>
          rw [hn, none_or] at hg
          exact (hrep.listedData dk v hg).mono (expiryGrows_oldBlocks hcm dk.blkNum)
        | some => exact listedData_oldBlocks hcm hn
      listedMissing := fun key hrc =>
        (hrep.listedMissing key (hcm.records key hrc)).mono (expiryGrows_oldBlocks hcm key.blkNum) }

end

theorem not_spoiled_of_represents_oldBlocks (hnx : Represents hash btl next) :
    (∀ e ∈ dataEntries, ¬ db.inelgMissingData.Has e.1) ∧
      ∀ dk ∈ unreconciled, db.inelgMissingData.Has dk →
        ¬ db.elgPrioMissingData.Records dk.nsCollBlk := by
  refine ⟨?_, ?_⟩
  · intro e he hin
    have hk := (mem_keys_oldBlocks hcm hmiss hrep).mpr ⟨e.2, he⟩
    obtain ⟨_, hv⟩ := mem_keys_iff.mp hk
    have hb := hnx.absent e.1 (.inr (.inr (by rw [hcm.inelg]; exact hin)))
    rw [get_data_oldBlocks hcm, hv] at hb
    cases hb
  · intro dk hm hin hrc
    have hd := (hcm.deprio dk).mpr (.inr ⟨hm, hrc⟩)
    exact hnx.deprioOnly dk hd (by rw [hcm.inelg]; exact hin)

end OldBlocks

def PutsBack (btlPolicy : BTLPolicy) (db : StoreDB) (converted : MissingData) : Prop :=
  (∃ dk, converted.Has dk ∧ (db.elgDeprioMissingData.Has dk ∨ ∃ v, db.data.get dk = some v)) ∨
  ∃ key, converted.Records key ∧ ¬ ListedMissing btlPolicy db key

theorem represents_congr {db next : StoreDB} (hrep : Represents hash btl db)
    (hdt : next.data = db.data) (hi : next.hashedIndex = db.hashedIndex)
    (hx : next.expiry = db.expiry) (hpr : next.elgPrioMissingData = db.elgPrioMissingData)
    (hd : next.elgDeprioMissingData = db.elgDeprioMissingData)
    (hin : next.inelgMissingData = db.inelgMissingData) :
    Represents hash btl next := by
  obtain ⟨la, data, hashedIndex, purgeMarker, purgeMarkerColl, forRecon,
    expiry, prio, deprio, inelg, collElg⟩ := next
  cases hdt
  cases hi
  cases hx
  cases hpr
  cases hd
  cases hin
  exact
    { hrep with
      index :=
        { named := hrep.index.named
          distinct := hrep.index.distinct
          index := hrep.index.index } }

section Convert

variable {db : StoreDB} {converted : MissingData} {forgotten : List ℕ}

theorem has_prio_convert {dk : DataKey} :
    (db.convertMissingData converted forgotten).elgPrioMissingData.Has dk ↔
      converted.Has dk ∨ (¬ converted.Records dk.nsCollBlk ∧ db.elgPrioMissingData.Has dk) :=
  has_insertAll

theorem has_inelg_convert {dk : DataKey} :
    (db.convertMissingData converted forgotten).inelgMissingData.Has dk ↔
      ¬ converted.Records dk.nsCollBlk ∧ db.inelgMissingData.Has dk := by
  rw [← mem_keys_iff_records]
  exact has_eraseAll

theorem records_convert {key : NsCollBlk}
    (hrc : (db.convertMissingData converted forgotten).RecordsMissing key) :
    converted.Records key ∨ db.RecordsMissing key := by
  rcases hrc with hprio | hdep | hinelg
  · exact (records_insertAll.mp hprio).imp_right .inl
  · exact .inr (.inr (.inl hdep))
  · exact .inr (.inr (.inr (records_eraseAll.mp hinelg).2))

theorem represents_convert_iff (hrep : Represents hash btl db) :
    Represents hash btl (db.convertMissingData converted forgotten) ↔
      ¬ PutsBack btl db converted := by
  constructor
  · rintro hnext (⟨dk, hhas, hd | ⟨_, hv⟩⟩ | ⟨key, hrc, hun⟩)
    · exact (hnext.prioOnly dk (has_prio_convert.mpr (.inl hhas))).1 hd
    · have hb := hnext.absent dk (.inl (has_prio_convert.mpr (.inl hhas)))
      change db.data.get dk = none at hb
      rw [hv] at hb
      cases hb
    · exact hun (hnext.listedMissing key (.inl (records_insertAll.mpr (.inl hrc))))
  intro hfn
  unfold PutsBack at hfn
  push Not at hfn
  obtain ⟨hc, hls⟩ := hfn
  exact
    { index :=
        { named := hrep.index.named
          distinct := hrep.index.distinct
          index := hrep.index.index }
      prioOnly := by
        intro dk hpr
        rw [has_inelg_convert]
        rcases has_prio_convert.mp hpr with hn | ⟨-, hl⟩
        · exact ⟨(hc dk hn).1, fun hin => hin.1 hn.records⟩
        · exact ⟨(hrep.prioOnly dk hl).1, fun hin => (hrep.prioOnly dk hl).2 hin.2⟩
      deprioOnly := by
        intro dk hd
        rw [has_inelg_convert]
        exact fun hin => hrep.deprioOnly dk hd hin.2
      absent := by
        intro dk hms
        unfold StoreDB.Misses at hms
        rw [has_prio_convert, has_inelg_convert] at hms
        rcases hms with (hn | ⟨-, hl⟩) | hl | ⟨-, hl⟩
        · cases hg : db.data.get dk with
          | none => exact hg
          | some v => exact absurd hg ((hc dk hn).2 v)
        · exact hrep.absent dk (.inl hl)
        · exact hrep.absent dk (.inr (.inl hl))
        · exact hrep.absent dk (.inr (.inr hl))
      listedData := hrep.listedData
      listedMissing := by
        intro key hrc
        rcases records_convert hrc with hn | hl
        · exact hls key hn
        · exact hrep.listedMissing key hl }

end Convert

end FabricSequencer.Pvtdatastorage
