import FabricSequencer.PurgeRuns

/-!
# Purge markers

All markers of a key share one database key, so a commit replaces a marker that
the purger has already read, and the purger then deletes the replacement.  A
read takes a snapshot of the write sets but looks the markers up one after the
other, so it may look for a marker that the purger has deleted together with
the writes it covered.  These are the only two ways in which a purged write is
returned.
-/

namespace FabricSequencer.Pvtdatastorage

open SortedMap List

variable (hash : KeyHash)

def NoPurged (purged : SortedMap PurgeMarkerKey Height)
    (blockNum : ℕ) (blockPvtdata : List TxPvtData) : Prop :=
  ∀ txNum ns coll w, Returns blockPvtdata txNum ns coll w →
    ∀ ht, purged.get ⟨ns, coll, hash w.key⟩ = some ht → (⟨blockNum, txNum⟩ : Height).compare ht > 0

variable (btlPolicy btl : BTLPolicy) (world : World)

/-- Neither a call that is running nor one that is made now returns a write
that had been purged when the call was made. -/
structure Clean : Prop where
  running : ∀ running ∈ world.reads, ∀ blockPvtdata,
    world.db.finishRead hash btlPolicy running.read = .ok blockPvtdata →
      NoPurged hash running.purged running.blockNum blockPvtdata
  called : ∀ blockNum filter blockPvtdata,
    world.db.getPvtDataByBlockNum hash btlPolicy blockNum filter = .ok blockPvtdata →
      NoPurged hash world.purged blockNum blockPvtdata

def LeavesWrite (marker : PurgeMarkerKey × Height) : Prop :=
  ∃ dk v w ht last, world.db.data.get dk = some v ∧ w ∈ v.kvRwSet.writes ∧
    dk.markerKey hash w = marker.1 ∧
    world.purged.get marker.1 = some ht ∧
    dk.height.compare marker.2 > 0 ∧ dk.height.compare ht ≤ 0 ∧
    world.db.lastCommittedBlock = some last ∧ Visible btlPolicy last none dk

def LeavesRead (marker : PurgeMarkerKey × Height) : Prop :=
  ∃ running ∈ world.reads, ∃ entry ∈ running.read.itr,
    ∃ w ∈ entry.2.kvRwSet.writes, ∃ ht, entry.1.markerKey hash w = marker.1 ∧
      running.purged.get marker.1 = some ht ∧
      entry.1.height.compare ht ≤ 0 ∧
      Visible btlPolicy running.read.lastCommittedBlock running.read.filter entry.1

def LosesMarker (event : Event) : Prop :=
  ∃ exceeds purger batch, event = .purgerStep exceeds ∧ world.purger = some purger ∧
    purger.flushed world.db exceeds = some batch ∧
    ∃ marker ∈ batch.deletedMarkers,
      LeavesWrite hash btlPolicy world marker ∨ LeavesRead hash btlPolicy world marker

variable {hash : KeyHash} {btlPolicy btl : BTLPolicy} {purgeInterval ival : ℕ}

structure Kept (hash : KeyHash) (btlPolicy : BTLPolicy) (world : World) : Prop where
  stored : ∀ dk v w last ht, world.db.data.get dk = some v →
    w ∈ v.kvRwSet.writes → world.db.lastCommittedBlock = some last →
    Visible btlPolicy last none dk →
    world.purged.get (dk.markerKey hash w) = some ht →
    dk.height.compare ht ≤ 0 → world.db.Covers hash dk w
  waiting : ∀ running ∈ world.reads, ∀ entry ∈ running.read.itr, ∀ w ∈ entry.2.kvRwSet.writes, ∀ ht,
    Visible btlPolicy running.read.lastCommittedBlock running.read.filter entry.1 →
    running.purged.get (entry.1.markerKey hash w) = some ht →
    entry.1.height.compare ht ≤ 0 → world.db.Covers hash entry.1 w
  returned : ∀ running ∈ world.reads,
    NoPurged hash running.purged running.blockNum running.read.blockPvtdata

variable {world : World}

theorem clean_of_kept (hft : WorldFits hash btl world)
    (hkp : Kept hash btl world) : Clean hash btl world where
  running := by
    intro running hr _ hf tn ns coll w hrtr ht hpu
    have hrd := hft.reads running hr
    obtain ⟨_, hout, hret⟩ := finishRead_returns hash hft.coll running.read hrd.known
    rw [hf] at hout
    cases hout
    rcases (hret tn ns coll w).mp hrtr with hpre | ⟨e, he, hv, rfl, rfl, rfl, hw, hop⟩
    · exact hkp.returned running hr tn ns coll w hpre ht hpu
    · rw [hrd.named e he] at hpu
      rw [Height.compare_pos_iff, ← hrd.block e he]
      intro hle
      exact hop (hkp.waiting running hr e he w hw ht hv hpu hle)
  called := by
    intro _ filter _ hg tn ns coll w hrtr ht hpu
    obtain ⟨la, hla, hle⟩ := getPvtDataByBlockNum_eq_ok hg
    obtain ⟨_, hout, hret⟩ := getPvtDataByBlockNum_returns hash hft.coll hft.known hla hle filter
    rw [hg] at hout
    cases hout
    obtain ⟨e, hdt, rfl, hv, rfl, rfl, rfl, hw, hop⟩ := (hret tn ns coll w).mp hrtr
    rw [hft.store.index.named _ _ hdt] at hpu
    rw [Height.compare_pos_iff]
    intro hl
    exact hop (hkp.stored e.1 e.2 w la ht hdt hw hla hv.unfiltered hpu hl)

variable {dk : DataKey} {w : KVWrite}

theorem covers_of_clean (hft : WorldFits hash btl world) (hcl : Clean hash btl world)
    {v : CollPvtRwSet} {last : ℕ} {ht : Height} (hdt : world.db.data.get dk = some v)
    (hw : w ∈ v.kvRwSet.writes) (hla : world.db.lastCommittedBlock = some last)
    (hv : Visible btl last none dk) (hpu : world.purged.get (dk.markerKey hash w) = some ht)
    (hle : dk.height.compare ht ≤ 0) : world.db.Covers hash dk w := by
  by_contra hop
  have hb : dk.blkNum ≤ last := by
    have hlt := hft.store.bounded.data dk v hdt
    rw [StoreDB.nextBlockNum, hla] at hlt
    exact Nat.le_of_lt_succ hlt
  obtain ⟨out, hout, hr⟩ := getPvtDataByBlockNum_returns hash hft.coll hft.known hla hb none
  have hrtr : Returns out dk.txNum dk.ns dk.coll w :=
    (hr _ _ _ _).mpr ⟨(dk, v), hdt, rfl, hv, rfl, rfl, hft.store.index.named dk v hdt, hw, hop⟩
  have hhg := hcl.called dk.blkNum none out hout _ _ _ w hrtr ht hpu
  exact Height.compare_pos_iff.mp hhg hle

variable {running : RunningRead}

theorem covers_of_clean_running (hft : WorldFits hash btl world) (hcl : Clean hash btl world)
    (hr : running ∈ world.reads) {e : DataEntry} (he : e ∈ running.read.itr)
    (hw : w ∈ e.2.kvRwSet.writes) {ht : Height}
    (hv : Visible btl running.read.lastCommittedBlock running.read.filter e.1)
    (hpu : running.purged.get (e.1.markerKey hash w) = some ht) (hle : e.1.height.compare ht ≤ 0) :
    world.db.Covers hash e.1 w := by
  by_contra hop
  have hrd := hft.reads running hr
  obtain ⟨out, hout, hret⟩ := finishRead_returns hash hft.coll running.read hrd.known
  have hrtr : Returns out e.1.txNum e.1.ns e.1.coll w :=
    (hret _ _ _ _).mpr (.inr ⟨e, he, hv, rfl, rfl, hrd.named e he, hw, hop⟩)
  have hhg := hcl.running running hr out hout _ _ _ w hrtr ht hpu
  rw [← hrd.block e he] at hhg
  exact Height.compare_pos_iff.mp hhg hle

variable {input : CommitInput} {db next : StoreDB}

section

variable (hcom : db.commit hash btl input = .ok next)

include hcom

theorem lastCommittedBlock_commit : next.lastCommittedBlock = some db.nextBlockNum := by
  obtain ⟨hn, _, -, rfl⟩ := commit_eq_ok hcom
  rw [hn]
  rfl

theorem get_purgeMarker_commit (purged : SortedMap PurgeMarkerKey Height) (key : PurgeMarkerKey) :
    (∃ ht, ht.blockNum = db.nextBlockNum ∧ next.purgeMarker.get key = some ht ∧
      (purged.insertAll (preparePurgerMarkerEntries input.blockNum
        input.purgeMarkers).1).get key = some ht) ∨
    (next.purgeMarker.get key = db.purgeMarker.get key ∧
      (purged.insertAll (preparePurgerMarkerEntries input.blockNum
        input.purgeMarkers).1).get key = purged.get key) := by
  obtain ⟨hn, es, hpp, rfl⟩ := commit_eq_ok hcom
  obtain ⟨-, -, -, -, -, hr, -⟩ := prepareStoreEntries_eq_ok hpp
  change (∃ ht, _ ∧ (db.purgeMarker.insertAll es.purgeMarkerEntries).get
    key = some ht ∧ _) ∨ (db.purgeMarker.insertAll es.purgeMarkerEntries).get key = _ ∧ _
  rw [hr]
  by_cases hm : ∃ ht, (key, ht) ∈ (preparePurgerMarkerEntries input.blockNum input.purgeMarkers).1
  · left
    obtain ⟨_, hm⟩ := hm
    obtain ⟨la, hla, he⟩ := exists_get_insertAll db.purgeMarker hm
    refine ⟨la, ?_, hla, ?_⟩
    · obtain ⟨_, -, heq⟩ := mem_map.mp he
      cases heq
      exact hn.symm
    · rw [← hla]
      exact get_insertAll_congr purged db.purgeMarker hm
  · right
    rw [not_exists] at hm
    exact ⟨get_insertAll_of_not_mem hm, get_insertAll_of_not_mem hm⟩

theorem covers_commit (hb : Bounded db) (hc : db.Covers hash dk w) : next.Covers hash dk w := by
  obtain ⟨ht, hg, hle⟩ := hc
  rcases get_purgeMarker_commit hcom SortedMap.empty
    (dk.markerKey hash w) with ⟨newHt, hl, hn, -⟩ | ⟨heq, -⟩
  · refine ⟨newHt, hn, ?_⟩
    have hlt := hb.purgeMarker _ _ hg
    rw [Height.compare_nonpos_iff] at hle ⊢
    omega
  · exact ⟨ht, heq.trans hg, hle⟩

end

variable {db : StoreDB}

theorem kept_commit (hcom : world.db.commit hash btl input = .ok db)
    (hft : WorldFits hash btl world) (hkp : Kept hash btl world) (scheduled : List ℕ) :
    Kept hash btl
      { world with
        db := db
        scheduled := scheduled
        purged := world.purged.insertAll
          (preparePurgerMarkerEntries input.blockNum input.purgeMarkers).1 } where
  stored := by
    intro dk v w last ht hdt hw hla hv hpu hle
    rw [lastCommittedBlock_commit hcom] at hla
    cases hla
    rcases get_purgeMarker_commit hcom world.purged (dk.markerKey hash w)
      with ⟨newHt, -, hn, hgh⟩ | ⟨-, hgh⟩
    · rw [hgh] at hpu
      cases hpu
      exact ⟨ht, hn, hle⟩
    rw [hgh] at hpu
    -- A marker of an earlier block covers no write of this one.
    have hlt : dk.blkNum < world.db.nextBlockNum := by
      have hp := hft.purged _ _ hpu
      have hb : dk.height.blockNum = dk.blkNum := rfl
      rw [Height.compare_nonpos_iff] at hle
      omega
    have hl : world.db.data.get dk = some v := by
      rw [← get_data_commit_of_lt hcom hlt]
      exact hdt
    obtain ⟨last, hla⟩ : ∃ last, world.db.lastCommittedBlock = some last := by
      cases hno : world.db.lastCommittedBlock with
      | none =>
        rw [StoreDB.nextBlockNum, hno] at hlt
        exact absurd hlt (Nat.not_lt_zero _)
      | some last => exact ⟨last, rfl⟩
    have hea : last ≤ world.db.nextBlockNum := by
      rw [StoreDB.nextBlockNum, hla]
      exact Nat.le_succ last
    exact covers_commit hcom hft.store.bounded
      (hkp.stored dk v w last ht hl hw hla (hv.anti hea) hpu hle)
  waiting := fun running hr e he w hw ht hv hpu hle =>
    covers_commit hcom hft.store.bounded (hkp.waiting running hr e he w hw ht hv hpu hle)
  returned := hkp.returned

/-! ## Steps of the purger -/

theorem kept_purgerStep_of_unflushed {ex : Bool} {purger : Purger} (hhs : Function.Injective hash)
    (hst : StoreFits hash world.db (some purger))
    (hfl : purger.flushed world.db ex = none) (hkp : Kept hash btl world) :
    Kept hash btl
      { world with
        db := (purger.step hash world.db ex).1
        purger := (purger.step hash world.db ex).2 } := by
  have hm : (purger.step hash world.db ex).1.purgeMarker = world.db.purgeMarker := by
    rcases purger.step_cases hash world.db ex with ⟨e, -, hdb⟩ | ⟨-, hdb⟩ | ⟨batch, hsm, -⟩
    · rw [hdb]
      rfl
    · rw [hdb]
    · rw [hfl] at hsm
      cases hsm
  have hc : ∀ dk w, world.db.Covers hash dk w →
      (purger.step hash world.db ex).1.Covers hash dk w := by
    intro _ _ hc
    unfold StoreDB.Covers
    rw [hm]
    exact hc
  have hs := shrinks_purgerStep ex hhs hst
  exact
    { stored := by
        intro dk v w la ht hdt hw hla hv hpu hle
        obtain ⟨pre, hp, hwrt⟩ := hs.data dk v hdt
        exact hc dk w (hkp.stored dk pre w la ht hp (hwrt w hw) (hs.last ▸ hla) hv hpu hle)
      waiting := fun running hr e he w hw ht hv hpu hle =>
        hc e.1 w (hkp.waiting running hr e he w hw ht hv hpu hle)
      returned := hkp.returned }

variable {batch : PurgeUpdatesProcessor}

theorem covers_commitPendingChanges :
    (db.commitPendingChanges batch).Covers hash dk w ↔
      dk.markerKey hash w ∉ batch.deletedMarkers.map Prod.fst ∧ db.Covers hash dk w := by
  unfold StoreDB.Covers
  change (∃ ht, (db.purgeMarker.eraseAll _).get _ = some ht ∧ _) ↔ _
  simp only [get_eraseAll]
  split_ifs with hmem <;> simp [hmem]

variable {markers : List (PurgeMarkerKey × Height)}
  {current : Option (PurgeMarkerKey × Height)} {index : List HashedIndexEntry}

variable {marker : PurgeMarkerKey × Height}

theorem height_gt_of_left (hi : IndexFits hash db)
    (hft : MarkedFits hash db markers current index batch) (hmr : marker ∈ batch.deletedMarkers)
    {v : CollPvtRwSet} (hdt : db.data.get dk = some v) (hw : w ∈ v.kvRwSet.writes)
    (hk : dk.markerKey hash w = marker.1) (hlf : dk.hashedIndexKey hash w ∉ batch.deletedIndex) :
    dk.height.compare marker.2 > 0 := by
  rw [Height.compare_pos_iff]
  intro hle
  exact hlf (hft.processed marker hmr (dk.hashedIndexKey hash w) w.key
    (hi.get_hashedIndexKey hdt hw) hk hle)

theorem kept_flush (hi : IndexFits hash world.db)
    (hm : MarkedFits hash world.db markers current index batch) (hkp : Kept hash btl world)
    (hnd : ∀ marker ∈ batch.deletedMarkers,
      ¬ LeavesWrite hash btl world marker ∧ ¬ LeavesRead hash btl world marker)
    (purger : Option Purger) :
    Kept hash btl
      { world with
        db := world.db.commitPendingChanges batch
        purger := purger } where
  stored := by
    intro dk _ w la ht hdt hw hla hv hpu hle
    dsimp only at hdt
    rw [get_data_commitPendingChanges hm.processor, Option.map_eq_some_iff] at hdt
    obtain ⟨pre, hp, rfl⟩ := hdt
    obtain ⟨hl, hlf⟩ := mem_filter.mp hw
    rw [decide_eq_true_eq] at hlf
    apply covers_commitPendingChanges.mpr
    refine ⟨?_, hkp.stored dk pre w la ht hp hl hla hv hpu hle⟩
    intro hd
    obtain ⟨marker, hmr, hk⟩ := mem_map.mp hd
    apply (hnd marker hmr).1
    refine ⟨dk, pre, w, ht, la, hp, hl, hk.symm, ?_, ?_, hle, hla, hv⟩
    · rw [hk]
      exact hpu
    · exact height_gt_of_left hi hm hmr hp hl hk.symm hlf
  waiting := by
    intro running hr e he w hw ht hv hpu hle
    apply covers_commitPendingChanges.mpr
    refine ⟨?_, hkp.waiting running hr e he w hw ht hv hpu hle⟩
    intro hd
    obtain ⟨marker, hmr, hk⟩ := mem_map.mp hd
    apply (hnd marker hmr).2
    refine ⟨running, hr, e, he, w, hw, ht, hk.symm, ?_, hle, hv⟩
    rw [hk]
    exact hpu
  returned := hkp.returned

theorem not_clean_flush
    {purger : Option Purger} (hmrk : MarkedFits hash world.db markers current index batch)
    (hft : WorldFits hash btl
      { world with
        db := world.db.commitPendingChanges batch
        purger := purger }) (hmr : marker ∈ batch.deletedMarkers)
    (hs : LeavesWrite hash btl world marker ∨ LeavesRead hash btl world marker) :
    ¬ Clean hash btl
      { world with
        db := world.db.commitPendingChanges batch
        purger := purger } := by
  intro hcl
  have hd : marker.1 ∈ batch.deletedMarkers.map Prod.fst := mem_map_of_mem hmr
  rcases hs with
    ⟨dk, v, w, ht, la, hdt, hw, hk, hpu, hhg, hle, hla, hv⟩ |
    ⟨running, hr, e, he, w, hw, ht, hk, hpu, hle, hv⟩
  · -- The markers in the batch have different ks, so the write is kept.
    have hlf : dk.hashedIndexKey hash w ∉ batch.deletedIndex := by
      intro hm
      obtain ⟨other, ho, hsm, hl⟩ := hmrk.deletedSource _ hm
      have heq : other = marker := by
        apply inj_on_of_nodup_map hmrk.distinct
        · exact mem_append_left _ ho
        · exact mem_append_left _ (mem_append_left _ hmr)
        · exact hsm.symm.trans hk
      subst heq
      exact Height.compare_pos_iff.mp hhg hl
    have haf : (world.db.commitPendingChanges batch).data.get dk = some (v.filterWrites fun w =>
          decide (dk.hashedIndexKey hash w ∉ batch.deletedIndex)) := by
      rw [get_data_commitPendingChanges hmrk.processor, hdt]
      rfl
    have hc := covers_of_clean hft hcl haf (mem_filter.mpr ⟨hw, decide_eq_true hlf⟩) hla hv
      (hk.symm ▸ hpu) hle
    exact (covers_commitPendingChanges.mp hc).1 (hk.symm ▸ hd)
  · have hc := covers_of_clean_running hft hcl hr he hw hv (hk.symm ▸ hpu) hle
    exact (covers_commitPendingChanges.mp hc).1 (hk.symm ▸ hd)

theorem kept_beginRead {blockNum : ℕ} {filter : PvtNsCollFilter} {read : BlockRead}
    (hbg : world.db.beginRead blockNum filter = .ok read) (hkp : Kept hash btl world) :
    Kept hash btl
      { world with
        reads := { blockNum := blockNum, read := read
                   purged := world.purged } :: world.reads } where
  stored := hkp.stored
  waiting := by
    intro running hm e he w hw ht hv hpu hle
    rcases mem_cons.mp hm with rfl | hold
    · obtain ⟨la, hla, -, rfl⟩ := beginRead_eq_ok.mp hbg
      exact hkp.stored e.1 e.2 w la ht (mem_itr.mp he).1 hw hla hv.unfiltered hpu hle
    · exact hkp.waiting running hold e he w hw ht hv hpu hle
  returned := by
    intro running hm
    rcases mem_cons.mp hm with rfl | hold
    · obtain ⟨_, -, -, rfl⟩ := beginRead_eq_ok.mp hbg
      intro _ _ _ _ hr
      exact absurd hr not_returns_nil
    · exact hkp.returned running hold

theorem kept_visitNext {index : ℕ} (hr : running ∈ world.reads)
    (hft : WorldFits hash btl world) (hkp : Kept hash btl world) :
    Kept hash btl
      { world with
        reads := replaceRead world.reads index (running.advance hash btl world.db) } where
  stored := hkp.stored
  waiting := by
    intro other hm e he w hw ht hv hpu hle
    rcases mem_replaceRead hm with hold | hadvance
    · exact hkp.waiting other hold e he w hw ht hv hpu hle
    · obtain ⟨visited, _, _, hitr, -, rfl⟩ := advance_eq_some hadvance
      refine hkp.waiting running hr e ?_ w hw ht hv hpu hle
      rw [hitr]
      exact mem_cons_of_mem visited he
  returned := by
    intro other hm
    rcases mem_replaceRead hm with hold | hadvance
    · exact hkp.returned other hold
    obtain ⟨visited, _, _, hitr, hvs, rfl⟩ := advance_eq_some hadvance
    have hs : visited ∈ running.read.itr := by
      rw [hitr]
      exact mem_cons_self
    have hrd := hft.reads running hr
    obtain ⟨_, hnx, hret⟩ := visit_returns hash hft.coll
      running.read.lastCommittedBlock running.read.filter
      running.read.blockPvtdata (hrd.known visited hs)
    rw [hvs] at hnx
    cases hnx
    intro tn ns coll w hrtr ht hpu
    rcases (hret tn ns coll w).mp hrtr with hpre | ⟨hv, rfl, rfl, rfl, hw, hop⟩
    · exact hkp.returned running hr tn ns coll w hpre ht hpu
    dsimp only at hpu ⊢
    rw [hrd.named visited hs] at hpu
    rw [Height.compare_pos_iff, ← hrd.block visited hs]
    intro hle
    exact hop (hkp.waiting running hr visited hs w hw ht hv hpu hle)

theorem kept_initial : Kept hash btl initialWorld where
  stored := by simp [initialWorld, emptyStore]
  waiting := by simp [initialWorld]
  returned := by simp [initialWorld]

variable {ev : Event}

theorem kept_step {world next : World} (hmv : Moves hash btl ival world ev next)
    (hhs : Function.Injective hash) (hft : WorldFits hash btl world)
    (hkp : Kept hash btl world) (hnd : ¬ LosesMarker hash btl world ev) :
    Kept hash btl next := by
  cases hmv with
  | idle => exact hkp
  | commit hcom => exact kept_commit hcom hft hkp _
  | startPurger =>
    exact
      { stored := hkp.stored
        waiting := hkp.waiting
        returned := hkp.returned }
  | @purgerStep ex pg hp =>
    have hst : StoreFits hash world.db (some pg) := hp ▸ hft.store
    rcases pg.step_cases hash world.db ex with ⟨e, hfl, -⟩ | ⟨hfl, -⟩ | ⟨batch, hfl, hdb⟩
    · exact kept_purgerStep_of_unflushed hhs hst hfl hkp
    · exact kept_purgerStep_of_unflushed hhs hst hfl hkp
    obtain ⟨_, _, _, hm⟩ := Purger.flushed_fits hhs hst hfl
    rw [hdb]
    apply kept_flush hst.index hm hkp
    intro marker hmr
    rw [← not_or]
    intro hl
    exact hnd ⟨ex, pg, batch, rfl, hp, hfl, marker, hmr, hl⟩
  | beginRead hbg => exact kept_beginRead hbg hkp
  | visitNext hr => exact kept_visitNext (mem_of_getElem? hr) hft hkp

theorem not_clean_step (hhs : Function.Injective hash) (hft : WorldFits hash btl world)
    (haf : WorldFits hash btl (world.step hash btl ival ev)) (hls : LosesMarker hash btl world ev) :
    ¬ Clean hash btl (world.step hash btl ival ev) := by
  obtain ⟨ex, purger, batch, rfl, hp, hfl, _, hmr, hl⟩ := hls
  have hst : StoreFits hash world.db (some purger) := hp ▸ hft.store
  obtain ⟨_, _, _, hm⟩ := Purger.flushed_fits hhs hst hfl
  have hdb : (purger.step hash world.db ex).1 = world.db.commitPendingChanges batch := by
    rcases purger.step_cases hash world.db ex with ⟨e, hno, -⟩ | ⟨hno, -⟩ | ⟨other, ho, hdb⟩
    · rw [hfl] at hno
      cases hno
    · rw [hfl] at hno
      cases hno
    · rw [hfl] at ho
      cases ho
      exact hdb
  have hstep : world.step hash btl ival (.purgerStep ex) =
      { world with
        db := world.db.commitPendingChanges batch
        purger := (purger.step hash world.db ex).2 } := by
    simp only [World.step, hp, hdb]
  rw [hstep] at haf ⊢
  exact not_clean_flush hm haf hmr hl

variable {events : List Event}

theorem run_take_succ {n : ℕ} (hev : events[n]? = some ev) :
    world.run hash btl ival (events.take (n + 1)) =
      (world.run hash btl ival (events.take n)).step hash btl ival ev := by
  rw [World.run, take_add_one, hev, foldl_append]
  rfl

theorem worldFits_run (btl : BTLPolicy) (ival : ℕ) (hhs : Function.Injective hash)
    (hds : ∀ input, .commit input ∈ events → input.Distinct) (n : ℕ) :
    WorldFits hash btl (initialWorld.run hash btl ival (events.take n)) := by
  induction n with
  | zero => exact worldFits_initial
  | succ n ih =>
    cases hev : events[n]? with
    | none =>
      rw [take_add_one, hev]
      simpa using ih
    | some =>
      rw [run_take_succ hev]
      refine worldFits_step (moves_step _ _ _ _ _) hhs ?_ ih
      rintro input rfl
      exact hds input (mem_of_getElem? hev)

def sampleHash : KeyHash := fun key => key

def sampleBTLPolicy : BTLPolicy where
  getBTL := fun _ _ => .ok maxUint64

def sampleMarker (txNum : ℕ) : PurgeMarker where
  ns := [1]
  coll := [2]
  pvtkeyHash := [3]
  txNum := txNum

def sampleWrite : KVWrite where
  key := [3]
  isDelete := false
  value := [4]

def sampleTx : TxPvtData where
  seqInBlock := 0
  nsPvtRwset :=
    [{ nameSpace := [1]
       collectionPvtRwset :=
        [{ collectionName := [2]
           kvRwSet :=
            { reads := [], rangeQueriesInfo := [], writes := [sampleWrite]
              metadataWrites := [] } }] }]

/-- The first block purges the key.  While the purger is at this marker, the
second block writes the key in its first transaction and purges it again in
the second one. -/
def sampleEvents : List Event :=
  [.commit { blockNum := 0, pvtData := [], missingPvtData := SortedMap.empty
             purgeMarkers := [sampleMarker 0] },
   .startPurger 0, .purgerStep false, .purgerStep false,
   .commit { blockNum := 1, pvtData := [sampleTx]
             missingPvtData := SortedMap.empty
             purgeMarkers := [sampleMarker 1] },
   .purgerStep false, .purgerStep false]

theorem sampleEvents_distinct (input : CommitInput)
    (hin : Event.commit input ∈ sampleEvents) : input.Distinct := by
  simp only [sampleEvents, mem_cons, Event.commit.injEq, reduceCtorEq,
    not_mem_nil, or_false, false_or] at hin
  rcases hin with rfl | rfl <;> exact ⟨by decide, by decide⟩

end FabricSequencer.Pvtdatastorage
