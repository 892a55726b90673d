import FabricSequencer.PvtDataMissing

/-!
# A commit of data of old blocks

`CommitPvtDataOfOldBlocks` prepares its changes in three loops, each of which
reads the lists and the expiry entries through the changes made so far.  The
first loop only adds to expiry entries; the second removes the reconciled data
from the lists; the third moves the unreconciled data to the deprioritized
list, for the collections that have a prioritized entry at all.
-/

namespace FabricSequencer.Pvtdatastorage

open SortedMap List StoreDB ExpiryData

variable {hash : KeyHash} {btl : BTLPolicy}

/-! ## Entries for the data of old blocks -/

theorem constructExpiryKey_eq_ok {dk : DataKey} {expKey : ExpiryKey}
    (hcn : constructExpiryKey btl dk = .ok expKey) :
    btl.getExpiringBlock dk.ns dk.coll dk.blkNum =
        .ok expKey.expiringBlk ∧ expKey.committingBlk = dk.blkNum := by
  unfold constructExpiryKey at hcn
  split at hcn
  · cases hcn
  next hx =>
    cases hcn
    exact ⟨hx, rfl⟩

variable {db : StoreDB} {before after : OldBlockEntries}

theorem prepareDataAndExpiryEntry_eq_ok {e : DataEntry}
    (htr : db.prepareDataAndExpiryEntry btl before e = .ok after) :
    ∃ exp, btl.getExpiringBlock e.1.ns e.1.coll e.1.blkNum = .ok exp ∧
      ((neverExpires exp = true ∧ after = { before with
            dataEntries := before.dataEntries.insert e.1 e.2 }) ∨
        (neverExpires exp = false ∧
          db.getExpiryDataFromEntriesOrStore before ⟨exp, e.1.blkNum⟩ = none ∧ after = before) ∨
        ∃ expData, neverExpires exp = false ∧
          db.getExpiryDataFromEntriesOrStore before ⟨exp, e.1.blkNum⟩ = some expData ∧
          after = { before with
            dataEntries := before.dataEntries.insert e.1 e.2
            expiryEntries := before.expiryEntries.insert ⟨exp, e.1.blkNum⟩
              (expData.addPresentData e.1.ns e.1.coll e.1.txNum) }) := by
  obtain ⟨expKey, hcn, htr⟩ := of_bind htr
  obtain ⟨hx, hcm⟩ := constructExpiryKey_eq_ok hcn
  have hk : expKey = ⟨expKey.expiringBlk, e.1.blkNum⟩ := by
    rw [← hcm]
  refine ⟨expKey.expiringBlk, hx, ?_⟩
  dsimp only at htr
  split at htr
  next hnv =>
    cases htr
    exact .inl ⟨hnv, rfl⟩
  next hf =>
    rw [Bool.not_eq_true] at hf
    rw [hk] at htr
    split at htr
    next hno =>
      cases htr
      exact .inr (.inl ⟨hf, hno, rfl⟩)
    next expData hsm =>
      cases htr
      exact .inr (.inr ⟨expData, hf, hsm, rfl⟩)

structure Prepared (btlPolicy : BTLPolicy) (db : StoreDB)
    (dataEntries : List DataEntry) (entries : OldBlockEntries) : Prop where
  source : ∀ dk v, entries.dataEntries.get dk = some v → (dk, v) ∈ dataEntries
  expirySource : ∀ key value, entries.expiryEntries.get key = some value →
    ∃ before, db.expiry.get key = some before ∧ before.Grows value
  listed : ∀ dk v, entries.dataEntries.get dk = some v → ∀ expiringBlk,
    btlPolicy.getExpiringBlock dk.ns dk.coll dk.blkNum = .ok expiringBlk →
    neverExpires expiringBlk = false → ∃ value,
      entries.expiryEntries.get ⟨expiringBlk, dk.blkNum⟩ = some value ∧
        value.Present dk.ns dk.coll dk.txNum
  prioritized : entries.prioritizedMissingDataEntries = SortedMap.empty
  deprioritized : entries.deprioritizedMissingDataEntries = SortedMap.empty

theorem ExpiryData.Grows.trans {first b third : ExpiryData}
    (hf : first.Grows b) (hs : b.Grows third) :
    first.Grows third :=
  ⟨fun ns coll tn hpr =>
      hs.1 ns coll tn (hf.1 ns coll tn hpr),
    fun ns coll hms => hs.2 ns coll (hf.2 ns coll hms)⟩

theorem prepared_turn {dataEntries : List DataEntry} {e : DataEntry}
    (he : e ∈ dataEntries) (htr : db.prepareDataAndExpiryEntry btl before e = .ok after)
    (hpp : Prepared btl db dataEntries before) :
    Prepared btl db dataEntries after := by
  have hs : ∀ dk v, (before.dataEntries.insert e.1 e.2).get dk = some v →
      (dk, v) ∈ dataEntries := by
    intro dk v hg
    rw [get_insert] at hg
    split_ifs at hg with hdk
    · cases hg
      rw [hdk]
      exact he
    · exact hpp.source dk v hg
  obtain ⟨exp, hexp, ⟨hnv, rfl⟩ | ⟨-, -, rfl⟩ |
    ⟨expData, hf, hsm, rfl⟩⟩ := prepareDataAndExpiryEntry_eq_ok htr
  · refine { hpp with source := hs, listed := ?_ }
    intro dk v hg expiringBlk' hex' hf
    dsimp only at hg
    rw [get_insert] at hg
    split_ifs at hg with hdk
    · subst hdk
      rw [hexp] at hex'
      cases hex'
      rw [hnv] at hf
      cases hf
    · exact hpp.listed dk v hg expiringBlk' hex' hf
  · exact hpp
  · -- What was listed under the key, here or in the store, is still listed.
    have hd : ∀ key value, before.expiryEntries.get key = some value →
        ∃ later, (before.expiryEntries.insert ⟨exp, e.1.blkNum⟩
          (expData.addPresentData e.1.ns e.1.coll
            e.1.txNum)).get key = some later ∧ value.Grows later := by
      intro _ value hval
      rw [get_insert]
      split_ifs with hkey
      · subst hkey
        rw [getExpiryDataFromEntriesOrStore, hval] at hsm
        cases hsm
        exact ⟨_, rfl, grows_addPresentData _ _ _ _⟩
      · exact ⟨value, hval, value.grows_refl⟩
    refine { hpp with source := hs, expirySource := ?_, listed := ?_ }
    · intro key value hg
      dsimp only at hg
      rw [get_insert] at hg
      split_ifs at hg with hkey
      · subst hkey
        cases hg
        unfold getExpiryDataFromEntriesOrStore at hsm
        cases hl' : before.expiryEntries.get ⟨exp, e.1.blkNum⟩ with
        | none =>
          rw [hl', Option.none_or] at hsm
          exact ⟨expData, hsm, grows_addPresentData _ _ _ _⟩
        | some =>
          rw [hl'] at hsm
          cases hsm
          obtain ⟨stored, ht, hgr⟩ := hpp.expirySource _ expData hl'
          exact ⟨stored, ht, hgr.trans (grows_addPresentData _ _ _ _)⟩
      · exact hpp.expirySource key value hg
    · intro dk v hg expiringBlk' hex' hf'
      dsimp only at hg ⊢
      rw [get_insert] at hg
      split_ifs at hg with hdk
      · subst hdk
        rw [hexp] at hex'
        cases hex'
        exact ⟨_, get_insert_self _ _ _, present_addPresentData _ _ _ _⟩
      · obtain ⟨value, hval, hpr⟩ := hpp.listed dk v hg expiringBlk' hex' hf'
        obtain ⟨later, hl, hgr⟩ := hd _ value hval
        exact ⟨later, hl, hgr.1 _ _ _ hpr⟩

variable {blocksPvtData : BlocksPvtData}

theorem prepareDataAndExpiryEntries_eq_ok {es : OldBlockEntries}
    (hpp : db.prepareDataAndExpiryEntries btl blocksPvtData = .ok es) :
    Prepared btl db (dataEntriesOfBlocks blocksPvtData) es ∧
      ∀ e ∈ dataEntriesOfBlocks blocksPvtData,
        ListedMissing btl db e.1.nsCollBlk → ∃ v, es.dataEntries.get e.1 = some v := by
  refine ⟨?_, ?_⟩
  · refine Except.foldlM_invariant hpp ?_ fun before e after he htr hp =>
        prepared_turn he htr hp
    exact
      { source := by simp [emptyOldBlockEntries]
        expirySource := by simp [emptyOldBlockEntries]
        listed := by simp [emptyOldBlockEntries]
        prioritized := rfl
        deprioritized := rfl }
  refine (Except.foldlM_collects
    (fun before after => ∀ dk,
      (∃ v, before.dataEntries.get dk = some v) → ∃ v, after.dataEntries.get dk = some v)
    (fun e after => ListedMissing btl db e.1.nsCollBlk → ∃ v, after.dataEntries.get e.1 = some v)
    hpp ?_ ?_ ?_ ?_).2
  · intro _ _ hdk
    exact hdk
  · intro _ _ _ hf hs dk hdk
    exact hs dk (hf dk hdk)
  · intro before e _ htr
    have hn : ∀ dk, (∃ v, before.dataEntries.get dk = some v) →
        ∃ v, (before.dataEntries.insert e.1 e.2).get dk = some v := by
      rintro _ ⟨v, hv⟩
      rw [get_insert]
      split_ifs
      · exact ⟨_, rfl⟩
      · exact ⟨v, hv⟩
    obtain ⟨exp, hexp, ⟨-, rfl⟩ | ⟨hfin, hno, rfl⟩ |
      ⟨expData, -, -, rfl⟩⟩ := prepareDataAndExpiryEntry_eq_ok htr
    · exact ⟨hn, fun _ => ⟨_, get_insert_self _ _ _⟩⟩
    · refine ⟨fun dk hdk => hdk, ?_⟩
      intro hls
      obtain ⟨value, hval, -⟩ := hls exp hexp hfin
      have ht : db.expiry.get ⟨exp, e.1.blkNum⟩ = some value := hval
      rw [getExpiryDataFromEntriesOrStore, Option.or_eq_none_iff, ht] at hno
      cases hno.2
    · exact ⟨hn, fun _ => ⟨_, get_insert_self _ _ _⟩⟩
  · intro e _ _ hgr hdo hls
    exact hgr e.1 (hdo hls)

/-! ## Moving between the lists -/

section Moving

variable {db : StoreDB}

section

variable (db : StoreDB)

variable (entries : OldBlockEntries)

def StoreDB.PrioHas (dk : DataKey) : Prop :=
  ∃ bitmap, db.getPrioMissingDataFromEntriesOrStore entries dk.nsCollBlk =
    some bitmap ∧ dk.txNum ∈ bitmap

def StoreDB.DeprioHas (dk : DataKey) : Prop :=
  ∃ bitmap, db.getDeprioMissingDataFromEntriesOrStore entries dk.nsCollBlk =
    some bitmap ∧ dk.txNum ∈ bitmap

def StoreDB.PrioRecords (key : NsCollBlk) : Prop :=
  ∃ bitmap, db.getPrioMissingDataFromEntriesOrStore entries key = some bitmap

def StoreDB.DeprioRecords (key : NsCollBlk) : Prop :=
  ∃ bitmap, db.getDeprioMissingDataFromEntriesOrStore entries key = some bitmap

end

theorem mem_getD_iff {f : Option (Finset ℕ)} {tn : ℕ} :
    tn ∈ f.getD ∅ ↔ ∃ bitmap, f = some bitmap ∧ tn ∈ bitmap := by
  cases f <;> simp

theorem get_insert_or (changes stored : MissingData) (key other : NsCollBlk) (bm : Finset ℕ) :
    ((changes.insert key bm).get other).or (stored.get other) =
      if other = key then some bm
      else (changes.get other).or (stored.get other) := by
  rw [get_insert]
  split_ifs <;> rfl

theorem erased_iff (seen : NsCollBlk → Option (Finset ℕ)) (dk removed : DataKey) :
    (∃ bm, (if dk.nsCollBlk = removed.nsCollBlk then
        some (((seen removed.nsCollBlk).getD ∅).erase removed.txNum)
      else seen dk.nsCollBlk) = some bm ∧ dk.txNum ∈ bm) ↔
      (∃ bm, seen dk.nsCollBlk = some bm ∧ dk.txNum ∈ bm) ∧ dk ≠ removed := by
  rw [ne_eq, dataKey_eq_iff, not_and]
  split_ifs with hkey
  · rw [hkey]
    simp only [Option.some.injEq, exists_eq_left', Finset.mem_erase, mem_getD_iff, true_imp_iff]
    exact and_comm
  · simp [hkey]

variable {es : OldBlockEntries} {removed dk : DataKey}

theorem prioHas_reflectReconciledData :
    db.PrioHas (db.reflectReconciledData es removed) dk ↔ db.PrioHas es dk ∧ dk ≠ removed := by
  unfold reflectReconciledData
  dsimp only
  have hun : removed.txNum ∉ (db.getPrioMissingDataFromEntriesOrStore es removed.nsCollBlk).getD ∅ →
      (db.PrioHas es dk ↔ db.PrioHas es dk ∧ dk ≠ removed) := by
    intro hb
    rw [mem_getD_iff] at hb
    constructor
    · intro hh
      refine ⟨hh, ?_⟩
      rintro rfl
      exact hb hh
    · exact And.left
  split
  · unfold PrioHas getPrioMissingDataFromEntriesOrStore
    dsimp only
    rw [get_insert_or]
    exact erased_iff (fun key =>
      (es.prioritizedMissingDataEntries.get key).or (db.elgPrioMissingData.get key)) dk removed
  next hb =>
    split <;> exact hun hb

theorem deprioHas_reflectReconciledData (hds : db.PrioHas es removed → ¬ db.DeprioHas es removed) :
    db.DeprioHas (db.reflectReconciledData es removed) dk ↔ db.DeprioHas es dk ∧ dk ≠ removed := by
  unfold reflectReconciledData
  dsimp only
  have hun : ¬ db.DeprioHas es removed →
      (db.DeprioHas es dk ↔ db.DeprioHas es dk ∧ dk ≠ removed) := by
    intro hb
    constructor
    · intro hh
      refine ⟨hh, ?_⟩
      rintro rfl
      exact hb hh
    · exact And.left
  split
  next hpr => exact hun (hds (mem_getD_iff.mp hpr))
  · split
    · unfold DeprioHas getDeprioMissingDataFromEntriesOrStore
      dsimp only
      rw [get_insert_or]
      exact erased_iff (fun key =>
        (es.deprioritizedMissingDataEntries.get key).or
          (db.elgDeprioMissingData.get key)) dk removed
    next hb =>
      rw [mem_getD_iff] at hb
      exact hun hb

theorem records_insert_iff {changes stored : MissingData} {key other : NsCollBlk} {bm : Finset ℕ} :
    (∃ f, ((changes.insert key bm).get other).or (stored.get other) = some f) ↔
      (∃ f, (changes.get other).or (stored.get other) = some f) ∨ other = key := by
  rw [get_insert_or]
  split_ifs with hkey <;> simp [hkey]

theorem records_reflectReconciledData {removed : DataKey} {key : NsCollBlk} :
    (db.PrioRecords (db.reflectReconciledData es removed) key ↔ db.PrioRecords es key) ∧
    (db.DeprioRecords (db.reflectReconciledData es removed) key ↔ db.DeprioRecords es key) := by
  unfold reflectReconciledData
  dsimp only
  split
  next hpr =>
    refine ⟨?_, Iff.rfl⟩
    obtain ⟨bm, hb, -⟩ := mem_getD_iff.mp hpr
    refine records_insert_iff.trans (or_iff_left_of_imp ?_)
    rintro rfl
    exact ⟨bm, hb⟩
  · split
    next hd =>
      refine ⟨Iff.rfl, ?_⟩
      obtain ⟨bm, hb, -⟩ := mem_getD_iff.mp hd
      refine records_insert_iff.trans (or_iff_left_of_imp ?_)
      rintro rfl
      exact ⟨bm, hb⟩
    · exact ⟨Iff.rfl, Iff.rfl⟩

theorem entries_reflectReconciledData (db : StoreDB) (es : OldBlockEntries) (removed : DataKey) :
    (db.reflectReconciledData es removed).dataEntries = es.dataEntries ∧
      (db.reflectReconciledData es removed).expiryEntries = es.expiryEntries := by
  unfold reflectReconciledData
  dsimp only
  split
  · exact ⟨rfl, rfl⟩
  · split <;> exact ⟨rfl, rfl⟩

structure Reconciled (db : StoreDB) (before after : OldBlockEntries)
    (removed : List DataKey) : Prop where
  data : after.dataEntries = before.dataEntries
  expiry : after.expiryEntries = before.expiryEntries
  prio : ∀ dk, db.PrioHas after dk ↔ db.PrioHas before dk ∧ dk ∉ removed
  deprio : ∀ dk, db.DeprioHas after dk ↔ db.DeprioHas before dk ∧ dk ∉ removed
  prioRecords : ∀ key, db.PrioRecords after key ↔ db.PrioRecords before key
  deprioRecords : ∀ key, db.DeprioRecords after key ↔ db.DeprioRecords before key

theorem reconciled_foldl (removed : List DataKey)
    (hds : ∀ dk, db.PrioHas es dk → ¬ db.DeprioHas es dk) :
    Reconciled db es (removed.foldl db.reflectReconciledData es)
      removed := by
  induction removed generalizing es with
  | nil => exact ⟨rfl, rfl, by simp, by simp, by simp, by simp⟩
  | cons first _ ih =>
    have hd : ∀ dk, db.DeprioHas (db.reflectReconciledData es first) dk ↔ _ :=
      fun dk => deprioHas_reflectReconciledData (hds first)
    have hrs := @ih (db.reflectReconciledData es first) (by
      intro dk hh
      rw [prioHas_reflectReconciledData] at hh
      rw [hd]
      exact fun hbo => hds dk hh.1 hbo.1)
    obtain ⟨hdt, hx⟩ := entries_reflectReconciledData db es first
    rw [foldl_cons]
    exact
      { data := hrs.data.trans hdt
        expiry := hrs.expiry.trans hx
        prio := by
          intro dk
          rw [hrs.prio, prioHas_reflectReconciledData, mem_cons, not_or, and_assoc]
        deprio := by
          intro dk
          rw [hrs.deprio, hd, mem_cons, not_or, and_assoc]
        prioRecords := fun key =>
          (hrs.prioRecords key).trans records_reflectReconciledData.1
        deprioRecords := fun key =>
          (hrs.deprioRecords key).trans records_reflectReconciledData.2 }

structure Deprioritized (db : StoreDB) (before after : OldBlockEntries)
    (moved : List DataKey) : Prop where
  data : after.dataEntries = before.dataEntries
  expiry : after.expiryEntries = before.expiryEntries
  prio : ∀ dk, db.PrioHas after dk ↔ db.PrioHas before dk ∧ dk ∉ moved
  deprio : ∀ dk, db.DeprioHas after dk ↔ db.DeprioHas before dk ∨
    (dk ∈ moved ∧ db.PrioRecords before dk.nsCollBlk)
  prioRecords : ∀ key, db.PrioRecords after key ↔ db.PrioRecords before key
  deprioRecords : ∀ key, db.DeprioRecords after key →
    db.DeprioRecords before key ∨ db.PrioRecords before key

theorem deprioritized_turn (db : StoreDB) (es : OldBlockEntries) (missing : DataKey) :
    Deprioritized db es (db.reflectPriority es missing) [missing] := by
  unfold reflectPriority
  dsimp only
  split
  next hno =>
    have hs : ¬ db.PrioRecords es missing.nsCollBlk := by
      rintro ⟨_, hb⟩
      rw [hno] at hb
      cases hb
    refine ⟨rfl, rfl, ?_, ?_, fun _ => Iff.rfl, fun _ => .inl⟩
    · intro dk
      rw [mem_singleton]
      constructor
      · intro hh
        refine ⟨hh, ?_⟩
        rintro rfl
        obtain ⟨bm, hb, -⟩ := hh
        exact hs ⟨bm, hb⟩
      · exact And.left
    · intro dk
      rw [mem_singleton]
      constructor
      · exact .inl
      · rintro (hh | ⟨rfl, hrc⟩)
        · exact hh
        · exact absurd hrc hs
  next bm hsm =>
    have hrc : db.PrioRecords es missing.nsCollBlk := ⟨bm, hsm⟩
    refine ⟨rfl, rfl, ?_, ?_, ?_, ?_⟩
    · intro dk
      rw [mem_singleton]
      unfold PrioHas getPrioMissingDataFromEntriesOrStore
      dsimp only
      rw [get_insert_or]
      have hr := erased_iff (fun key =>
        (es.prioritizedMissingDataEntries.get key).or (db.elgPrioMissingData.get key)) dk missing
      unfold getPrioMissingDataFromEntriesOrStore at hsm
      rw [hsm] at hr
      exact hr
    · intro dk
      rw [mem_singleton]
      unfold DeprioHas getDeprioMissingDataFromEntriesOrStore
      dsimp only
      rw [get_insert_or, dataKey_eq_iff]
      split_ifs with hkey
      · rw [hkey]
        simp only [Option.some.injEq, exists_eq_left', Finset.mem_insert,
          mem_getD_iff, true_and, hrc, and_true]
        exact or_comm
      · simp [hkey]
    · intro key
      refine records_insert_iff.trans (or_iff_left_of_imp ?_)
      rintro rfl
      exact hrc
    · intro _ haf
      rcases records_insert_iff.mp haf with hpre | rfl
      · exact .inl hpre
      · exact .inr hrc

theorem deprioritized_foldl (db : StoreDB) (moved : List DataKey) (es : OldBlockEntries) :
    Deprioritized db es (moved.foldl db.reflectPriority es)
      moved := by
  induction moved generalizing es with
  | nil => refine ⟨rfl, rfl, by simp, by simp, by simp, fun _ => .inl⟩
  | cons first _ ih =>
    have hf := deprioritized_turn db es first
    have hrs := ih (db.reflectPriority es first)
    rw [foldl_cons]
    exact
      { data := hrs.data.trans hf.data
        expiry := hrs.expiry.trans hf.expiry
        prio := by
          intro dk
          rw [hrs.prio, hf.prio, mem_singleton, mem_cons, not_or, and_assoc]
        deprio := by
          intro dk
          rw [hrs.deprio, hf.deprio, hf.prioRecords,
            mem_singleton, mem_cons, or_assoc, or_and_right]
        prioRecords := fun key =>
          (hrs.prioRecords key).trans (hf.prioRecords key)
        deprioRecords := by
          intro key haf
          rcases hrs.deprioRecords key haf with hdep | hprio
          · exact hf.deprioRecords key hdep
          · exact .inr ((hf.prioRecords key).mp hprio) }

variable {stored changes : MissingData}

theorem has_putMissingData {dk : DataKey} :
    (putMissingData stored changes).Has dk ↔
      ∃ bitmap, (changes.get dk.nsCollBlk).or (stored.get dk.nsCollBlk) =
        some bitmap ∧ dk.txNum ∈ bitmap := by
  unfold putMissingData MissingData.Has
  rw [get_overlay]
  cases changes.get dk.nsCollBlk with
  | none => rfl
  | some bitmap =>
    by_cases hn : bitmap = ∅ <;> simp [hn]

theorem records_of_putMissingData
    {key : NsCollBlk} (hrc : (putMissingData stored changes).Records key) :
    ∃ bitmap, (changes.get key).or (stored.get key) = some bitmap := by
  obtain ⟨bitmap, hg⟩ := hrc
  unfold putMissingData at hg
  rw [get_overlay] at hg
  cases hch : changes.get key with
  | none =>
    rw [hch] at hg
    exact ⟨bitmap, hg⟩
  | some changed => exact ⟨changed, rfl⟩

end Moving

structure CommitsOldBlocks (btlPolicy : BTLPolicy) (hash : KeyHash)
    (db next : StoreDB) (dataEntries : List DataEntry)
    (unreconciled : List DataKey) (entries : OldBlockEntries) : Prop where
  prepared : Prepared btlPolicy db dataEntries entries
  complete : ∀ entry ∈ dataEntries,
    ListedMissing btlPolicy db entry.1.nsCollBlk → ∃ v, entries.dataEntries.get entry.1 = some v
  last : next.lastCommittedBlock = db.lastCommittedBlock
  data : next.data = db.data.insertAll entries.dataEntries.entries
  hashedIndex : next.hashedIndex = db.hashedIndex.insertAll
    (prepareHashedIndexEntries hash entries.dataEntries.entries)
  expiry : next.expiry = db.expiry.insertAll entries.expiryEntries.entries
  purgeMarker : next.purgeMarker = db.purgeMarker
  inelg : next.inelgMissingData = db.inelgMissingData
  prio : ∀ dk, next.elgPrioMissingData.Has dk ↔
    (db.elgPrioMissingData.Has dk ∧ dk ∉ entries.dataEntries.keys) ∧ dk ∉ unreconciled
  deprio : ∀ dk, next.elgDeprioMissingData.Has dk ↔
    (db.elgDeprioMissingData.Has dk ∧ dk ∉ entries.dataEntries.keys) ∨
      (dk ∈ unreconciled ∧ db.elgPrioMissingData.Records dk.nsCollBlk)
  records : ∀ key, next.RecordsMissing key → db.RecordsMissing key

theorem commitPvtDataOfOldBlocks_eq_ok {db next : StoreDB}
    {unreconciledMissingData : MissingPvtDataInfo}
    (hc : db.commitPvtDataOfOldBlocks hash btl blocksPvtData unreconciledMissingData = .ok next)
    (hds : ∀ dk, db.elgPrioMissingData.Has dk → ¬ db.elgDeprioMissingData.Has dk) :
    ∃ es, CommitsOldBlocks btl hash db next (dataEntriesOfBlocks blocksPvtData)
      (missingDataKeys unreconciledMissingData) es := by
  obtain ⟨es, hpp, hnx⟩ := of_bind hc
  cases hnx
  obtain ⟨hp, hcm⟩ := prepareDataAndExpiryEntries_eq_ok hpp
  have hg : ∀ key, db.getPrioMissingDataFromEntriesOrStore es key =
      db.elgPrioMissingData.get key := by
    simp [getPrioMissingDataFromEntriesOrStore, hp.prioritized]
  have hdg : ∀ key, db.getDeprioMissingDataFromEntriesOrStore es key =
      db.elgDeprioMissingData.get key := by
    simp [getDeprioMissingDataFromEntriesOrStore, hp.deprioritized]
  have hs : ∀ dk, db.PrioHas es dk ↔ db.elgPrioMissingData.Has dk := by
    intro dk
    rw [PrioHas, hg]
    rfl
  have hdp : ∀ dk, db.DeprioHas es dk ↔ db.elgDeprioMissingData.Has dk := by
    intro dk
    rw [DeprioHas, hdg]
    rfl
  have hr : ∀ key, db.PrioRecords es key ↔ db.elgPrioMissingData.Records key := by
    intro key
    rw [PrioRecords, hg]
    rfl
  have hd : ∀ key, db.DeprioRecords es key ↔ db.elgDeprioMissingData.Records key := by
    intro key
    rw [DeprioRecords, hdg]
    rfl
  have hrc := reconciled_foldl es.dataEntries.keys (by
      intro dk hpr
      rw [hs] at hpr
      rw [hdp]
      exact hds dk hpr)
  have hmv := deprioritized_foldl db (missingDataKeys unreconciledMissingData)
    (es.dataEntries.keys.foldl db.reflectReconciledData es)
  refine ⟨es,
    { prepared := hp
      complete := hcm
      last := rfl
      data := ?_
      hashedIndex := ?_
      expiry := ?_
      purgeMarker := rfl
      inelg := rfl
      prio := ?_
      deprio := ?_
      records := ?_ }⟩
  · rw [← hrc.data, ← hmv.data]
    rfl
  · rw [← hrc.data, ← hmv.data]
    rfl
  · rw [← hrc.expiry, ← hmv.expiry]
    rfl
  · intro dk
    rw [← hs, ← hrc.prio, ← hmv.prio]
    exact has_putMissingData
  · intro dk
    rw [← hdp, ← hr, ← hrc.deprio, ← hrc.prioRecords, ← hmv.deprio]
    exact has_putMissingData
  rintro key (hpr | hdep | hinelg)
  · have haf := records_of_putMissingData hpr
    exact .inl ((hr key).mp ((hrc.prioRecords key).mp ((hmv.prioRecords key).mp haf)))
  · have haf := records_of_putMissingData hdep
    rcases hmv.deprioRecords key haf with hpre | hpre
    · exact .inr (.inl ((hd key).mp ((hrc.deprioRecords key).mp hpre)))
    · exact .inl ((hr key).mp ((hrc.prioRecords key).mp hpre))
  · exact .inr (.inr hinelg)

end FabricSequencer.Pvtdatastorage
