import FabricSequencer.PvtDataIndex

/-!
# What a read of private data returns

`GetPvtDataByBlockNum` visits the stored write sets of a block, skips what has
expired or does not pass the filter, drops the writes that a purge marker
covers, and groups the rest by transaction and namespace.  The grouping loses
nothing and adds nothing, so the result is determined by which writes are
visited and which of them a marker covers.
-/

namespace FabricSequencer.Pvtdatastorage

open List

variable {hash : KeyHash} {btl : BTLPolicy}

def TxPvtData.Holds (tx : TxPvtData) (ns coll : GoString) (w : KVWrite) : Prop :=
  ∃ nsPvtdata ∈ tx.nsPvtRwset, nsPvtdata.nameSpace = ns ∧
    ∃ collPvtdata ∈ nsPvtdata.collectionPvtRwset,
      collPvtdata.collectionName = coll ∧ w ∈ collPvtdata.kvRwSet.writes

def Returns (blockPvtdata : List TxPvtData) (txNum : ℕ) (ns coll : GoString) (w : KVWrite) : Prop :=
  ∃ tx ∈ blockPvtdata, tx.seqInBlock = txNum ∧ tx.Holds ns coll w

theorem seqInBlock_add (a : TxPvtData) (ns : GoString) (v : CollPvtRwSet) :
    (a.add ns v).seqInBlock = a.seqInBlock := by
  unfold TxPvtData.add
  split
  · rfl
  · split <;> rfl

variable {v : CollPvtRwSet} {w : KVWrite}

theorem holds_add {a : TxPvtData} {ns ns' coll : GoString} :
    (a.add ns' v).Holds ns coll w ↔
      a.Holds ns coll w ∨ (ns' = ns ∧ v.collectionName = coll ∧ w ∈ v.kvRwSet.writes) := by
  unfold TxPvtData.add TxPvtData.Holds
  split
  next hla =>
    rw [List.getLast?_eq_none_iff] at hla
    simp only [hla, mem_singleton, exists_eq_left, not_mem_nil, false_and, exists_false, false_or]
  next hla =>
    obtain ⟨_, hp⟩ := List.getLast?_eq_some_iff.mp hla
    split
    · simp only [hp, mem_append, mem_singleton, or_and_right, exists_or, exists_eq_left]
    next hns =>
      rw [not_not] at hns
      simp only [hp, dropLast_concat, mem_append,
        mem_singleton, or_and_right, exists_or, exists_eq_left, and_or_left, or_assoc, ← hns]

variable {txNum : ℕ} {ns coll : GoString}

theorem returns_append {front back : List TxPvtData} :
    Returns (front ++ back) txNum ns coll w ↔
      Returns front txNum ns coll w ∨ Returns back txNum ns coll w := by
  simp only [Returns, mem_append, or_and_right, exists_or]

theorem returns_singleton {tx : TxPvtData} :
    Returns [tx] txNum ns coll w ↔ tx.seqInBlock = txNum ∧ tx.Holds ns coll w := by
  simp only [Returns, mem_singleton, exists_eq_left]

theorem not_returns_nil : ¬ Returns [] txNum ns coll w := by
  simp [Returns]

theorem not_holds_started :
    ¬ TxPvtData.Holds { seqInBlock := txNum, nsPvtRwset := [] } ns coll w := by
  simp [TxPvtData.Holds]

variable {dk : DataKey}

theorem returns_assemble {blockPvtdata : List TxPvtData} :
    Returns (assemble blockPvtdata dk v) txNum ns coll w ↔
      Returns blockPvtdata txNum ns coll w ∨
        (dk.txNum = txNum ∧ dk.ns = ns ∧ v.collectionName = coll ∧ w ∈ v.kvRwSet.writes) := by
  unfold assemble
  dsimp only
  split
  next hla =>
    rw [List.getLast?_eq_none_iff] at hla
    rw [hla, returns_singleton, seqInBlock_add, holds_add]
    simp only [not_holds_started, not_returns_nil, false_or]
  next hla =>
    obtain ⟨_, rfl⟩ := List.getLast?_eq_some_iff.mp hla
    split
    · rw [returns_append, returns_singleton, seqInBlock_add, holds_add]
      simp only [not_holds_started, false_or]
    next heq =>
      rw [not_not] at heq
      rw [dropLast_concat, returns_append, returns_append,
        returns_singleton, returns_singleton, seqInBlock_add, holds_add, heq, and_or_left, or_assoc]

def DataKey.markerKey (hash : KeyHash) (dk : DataKey) (w : KVWrite) : PurgeMarkerKey :=
  ⟨dk.ns, dk.coll, hash w.key⟩

def StoreDB.Covers (hash : KeyHash) (db : StoreDB) (dk : DataKey) (w : KVWrite) : Prop :=
  ∃ ht, db.purgeMarker.get (dk.markerKey hash w) = some ht ∧ dk.height.compare ht ≤ 0

def CollMarkersFit (db : StoreDB) : Prop :=
  ∀ key ht, db.purgeMarker.get key = some ht → ∃ collHt,
    db.purgeMarkerColl.get (toLex (key.ns, key.coll)) = some collHt ∧ ht.compare collHt ≤ 0

variable {db : StoreDB}

theorem filterIn_iff : db.filterIn hash dk w = true ↔ ¬ db.Covers hash dk w := by
  unfold StoreDB.filterIn StoreDB.Covers DataKey.markerKey
  cases db.purgeMarker.get ⟨dk.ns, dk.coll, hash w.key⟩ with
  | none | some => simp

theorem keyPotentiallyPurged_of_covers (hco : CollMarkersFit db) (hv : db.Covers hash dk w) :
    db.keyPotentiallyPurged dk = true := by
  obtain ⟨ht, hmr, hle⟩ := hv
  obtain ⟨collHt, hg, hc⟩ := hco _ ht hmr
  unfold StoreDB.keyPotentiallyPurged
  change db.purgeMarkerColl.get (toLex (dk.ns, dk.coll)) = some collHt at hg
  rw [hg]
  exact decide_eq_true (Height.compare_nonpos_trans hle hc)

theorem mem_removePurgedData (hco : CollMarkersFit db) :
    w ∈ (db.removePurgedDataFromCollPvtRWset hash dk v).kvRwSet.writes ↔
      w ∈ v.kvRwSet.writes ∧ ¬ db.Covers hash dk w := by
  unfold StoreDB.removePurgedDataFromCollPvtRWset
  split
  · simp only [CollPvtRwSet.filterWrites, mem_filter, filterIn_iff]
  next hun =>
    constructor
    · intro hw
      exact ⟨hw, fun hc =>
        hun (keyPotentiallyPurged_of_covers hco hc)⟩
    · rintro ⟨hw, -⟩
      exact hw

theorem collectionName_removePurgedData (db : StoreDB) (dk : DataKey) (v : CollPvtRwSet) :
    (db.removePurgedDataFromCollPvtRWset hash dk v).collectionName = v.collectionName := by
  unfold StoreDB.removePurgedDataFromCollPvtRWset
  split <;> rfl

/-! ## Visiting -/

def Known (btlPolicy : BTLPolicy) (dk : DataKey) : Prop :=
  ∃ expiringBlk, btlPolicy.getExpiringBlock dk.ns dk.coll dk.blkNum = .ok expiringBlk

variable {e : DataEntry}

theorem known_of_prepareExpiryEntries {committingBlk : ℕ} {des : List DataEntry}
    {elgMissing inelgMissing : MissingData} {expiryEntries : List (ExpiryKey × ExpiryData)}
    (hpp : prepareExpiryEntries committingBlk des elgMissing
      inelgMissing btl = .ok expiryEntries) (he : e ∈ des) :
    Known btl e.1 := by
  obtain ⟨_, hpr, -⟩ := of_bind hpp
  obtain ⟨_, _, htr⟩ := Except.exists_step_of_foldlM hpr (mem_map_of_mem he)
  obtain ⟨exp, hg, -⟩ := of_bind htr
  exact ⟨exp, hg⟩

theorem known_commit {db next : StoreDB} {inp : CommitInput}
    (hc : db.commit hash btl inp = .ok next) (hkn : ∀ dk v, db.data.get dk = some v → Known btl dk)
    (dk : DataKey) (v : CollPvtRwSet) (hg : next.data.get dk = some v) :
    Known btl dk := by
  rcases mem_of_get_data_commit hc hg with hnew | hold
  · obtain ⟨-, _, hpp, -⟩ := commit_eq_ok hc
    obtain ⟨hdt, -, -, -, hx, -⟩ := prepareStoreEntries_eq_ok hpp
    rw [← hdt] at hnew
    exact known_of_prepareExpiryEntries hx hnew
  · exact hkn dk v hold

def Visible (btlPolicy : BTLPolicy) (lastCommittedBlock : ℕ)
    (filter : PvtNsCollFilter) (dk : DataKey) : Prop :=
  (∃ expiringBlk,
    btlPolicy.getExpiringBlock dk.ns dk.coll dk.blkNum = .ok expiringBlk ∧
      lastCommittedBlock < expiringBlk) ∧
    passesFilter dk filter = true

variable {filter : PvtNsCollFilter}

theorem Visible.anti {la lt : ℕ} (hv : Visible btl lt filter dk) (hle : la ≤ lt) :
    Visible btl la filter dk := by
  obtain ⟨⟨exp, hg, hlt⟩, hpass⟩ := hv
  exact ⟨⟨exp, hg, lt_of_le_of_lt hle hlt⟩, hpass⟩

theorem Visible.unfiltered {la : ℕ} (hv : Visible btl la filter dk) : Visible btl la none dk :=
  ⟨hv.1, rfl⟩

def StoreDB.Delivers (hash : KeyHash) (btlPolicy : BTLPolicy) (db : StoreDB)
    (last : ℕ) (filter : PvtNsCollFilter) (entry : DataEntry) (txNum : ℕ)
    (ns coll : GoString) (w : KVWrite) : Prop :=
  Visible btlPolicy last filter entry.1 ∧ entry.1.txNum = txNum ∧
    entry.1.ns = ns ∧ entry.2.collectionName = coll ∧
    w ∈ entry.2.kvRwSet.writes ∧ ¬ db.Covers hash entry.1 w

theorem visit_returns (hash : KeyHash) (hco : CollMarkersFit db) (la : ℕ) (filter : PvtNsCollFilter)
    (blockPvtdata : List TxPvtData) (hkn : Known btl e.1) :
    ∃ next, db.visit hash btl la filter blockPvtdata e = .ok next ∧
      ∀ txNum ns coll w, Returns next txNum ns coll w ↔
        Returns blockPvtdata txNum ns coll w ∨
          db.Delivers hash btl la filter e txNum ns coll w := by
  obtain ⟨exp, hx⟩ := hkn
  have hv : Visible btl la filter e.1 ↔ la < exp ∧ passesFilter e.1 filter = true := by
    simp [Visible, hx]
  have hex : isExpired btl e.1.ns e.1.coll e.1.blkNum la = .ok (decide (la ≥ exp)) := by
    rw [isExpired, hx]
    rfl
  rw [StoreDB.visit, hex]
  change ∃ next, (if (decide (la ≥ exp) || !passesFilter e.1 filter) = true then _ else _) = _ ∧ _
  split
  next hs =>
    refine ⟨blockPvtdata, rfl, ?_⟩
    intro _ _ _ _
    have hh : ¬ Visible btl la filter e.1 := by
      rw [hv]
      simp only [Bool.or_eq_true, decide_eq_true_eq, Bool.not_eq_true'] at hs
      rintro ⟨_, hps⟩
      rcases hs with _ | hfl
      · omega
      · rw [hps] at hfl
        cases hfl
    simp only [StoreDB.Delivers, hh, false_and, or_false]
  next ht =>
    refine ⟨_, rfl, ?_⟩
    intro _ _ _ _
    have hsh : Visible btl la filter e.1 := by
      rw [hv]
      simpa using ht
    rw [returns_assemble, collectionName_removePurgedData, mem_removePurgedData hco]
    simp only [StoreDB.Delivers, hsh, true_and]

theorem finishRead_returns (hash : KeyHash) (hco : CollMarkersFit db)
    (read : BlockRead) (hkn : ∀ e ∈ read.itr, Known btl e.1) :
    ∃ out, db.finishRead hash btl read = .ok out ∧
      ∀ txNum ns coll w, Returns out txNum ns coll w ↔
        Returns read.blockPvtdata txNum ns coll w ∨
          ∃ e ∈ read.itr, db.Delivers hash btl
            read.lastCommittedBlock read.filter e txNum ns coll w := by
  obtain ⟨la, filter, itr, blockPvtdata⟩ := read
  unfold StoreDB.finishRead
  dsimp only at hkn ⊢
  induction itr generalizing blockPvtdata with
  | nil => exact ⟨blockPvtdata, rfl, by simp⟩
  | cons e _ ih =>
    obtain ⟨next, hvs, hnx⟩ := visit_returns hash hco la filter blockPvtdata (hkn e mem_cons_self)
    obtain ⟨out, hfl, ht⟩ := ih next fun other ho =>
      hkn other (mem_cons_of_mem e ho)
    refine ⟨out, ?_, ?_⟩
    · rw [foldlM_cons, hvs]
      exact hfl
    · intro _ _ _ _
      rw [ht, hnx, or_assoc]
      simp only [mem_cons, or_and_right, exists_or, exists_eq_left]

variable {blockNum : ℕ}

theorem beginRead_eq_ok {read : BlockRead} :
    db.beginRead blockNum filter = .ok read ↔
      ∃ la, db.lastCommittedBlock = some la ∧ blockNum ≤ la ∧
        read = { lastCommittedBlock := la, filter := filter
                 itr := (db.data.restrict fun k => k.blkNum = blockNum).entries
                 blockPvtdata := [] } := by
  unfold StoreDB.beginRead
  cases db.lastCommittedBlock with
  | none => simp
  | some la =>
    dsimp only
    by_cases hgt : blockNum > la
    · rw [if_pos hgt]
      simp only [reduceCtorEq, Option.some.injEq, exists_eq_left', Nat.not_le.mpr hgt, false_and]
    · rw [if_neg hgt]
      simp only [Except.ok.injEq, Option.some.injEq, exists_eq_left',
        Nat.not_lt.mp hgt, true_and, eq_comm]

theorem mem_itr :
    e ∈ (db.data.restrict fun k => k.blkNum = blockNum).entries ↔
      db.data.get e.1 = some e.2 ∧ e.1.blkNum = blockNum := by
  rw [← SortedMap.get_eq_some_iff, SortedMap.get_restrict]
  by_cases hb : e.1.blkNum = blockNum <;> simp [hb]

theorem getPvtDataByBlockNum_returns (hash : KeyHash) (hco : CollMarkersFit db)
    (hkn : ∀ dk v, db.data.get dk = some v → Known btl dk) {blockNum la : ℕ}
    (hla : db.lastCommittedBlock = some la) (hle : blockNum ≤ la) (filter : PvtNsCollFilter) :
    ∃ out, db.getPvtDataByBlockNum hash btl blockNum filter = .ok out ∧
      ∀ txNum ns coll w, Returns out txNum ns coll w ↔
        ∃ e : DataEntry, db.data.get e.1 = some e.2 ∧ e.1.blkNum = blockNum ∧
          db.Delivers hash btl la filter e txNum ns coll w := by
  obtain ⟨out, hf, ht⟩ := finishRead_returns hash hco
    { lastCommittedBlock := la, filter := filter
      itr := (db.data.restrict fun k => k.blkNum = blockNum).entries
      blockPvtdata := [] }
    (fun e he => hkn _ _ (mem_itr.mp he).1)
  refine ⟨out, ?_, ?_⟩
  · rw [StoreDB.getPvtDataByBlockNum, beginRead_eq_ok.mpr ⟨la, hla, hle, rfl⟩]
    exact hf
  · intro _ _ _ _
    rw [ht]
    simp only [not_returns_nil, false_or, mem_itr, and_assoc]

theorem getPvtDataByBlockNum_eq_ok {out : List TxPvtData}
    (hg : db.getPvtDataByBlockNum hash btl blockNum filter = .ok out) :
    ∃ last, db.lastCommittedBlock = some last ∧ blockNum ≤ last := by
  obtain ⟨_, hbg, -⟩ := of_bind hg
  obtain ⟨last, hla, hle, -⟩ := beginRead_eq_ok.mp hbg
  exact ⟨last, hla, hle⟩

end FabricSequencer.Pvtdatastorage
