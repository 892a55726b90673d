import FabricSequencer.PvtDataRead

/-!
# Commits, purges and reads of private data

`Commit`, the purger and `GetPvtDataByBlockNum` run concurrently, and only the
purger holds a lock.  An event is one step of one of them: a whole commit,
since it writes one batch, one step of the purger, or one visited write set of
a read.

`World` keeps, besides the store, the height of the last marker that a commit
has stored for each key, and with a running read those heights at its start.
Nothing of the program reads them.
-/

namespace FabricSequencer.Pvtdatastorage

open SortedMap List

/-! ## Runs -/

/-- A call of `GetPvtDataByBlockNum` that has not returned. -/
structure RunningRead where
  blockNum : ℕ
  read : BlockRead
  purged : SortedMap PurgeMarkerKey Height

structure World where
  db : StoreDB
  /-- The purgers that wait for the lock, by their last block. -/
  scheduled : List ℕ
  purger : Option Purger
  reads : List RunningRead
  purged : SortedMap PurgeMarkerKey Height

def initialWorld : World where
  db := emptyStore
  scheduled := []
  purger := none
  reads := []
  purged := SortedMap.empty

inductive Event where
  | commit (input : CommitInput)
  | startPurger (index : ℕ)
  | purgerStep (exceeds : Bool)
  | beginRead (blockNum : ℕ) (filter : PvtNsCollFilter)
  | visitNext (index : ℕ)

def performPurgeIfScheduled (purgeInterval : ℕ) (scheduled : List ℕ)
    (latestCommittedBlk : ℕ) : List ℕ :=
  if latestCommittedBlk % purgeInterval ≠ 0 then scheduled
  else scheduled ++ [latestCommittedBlk]

def RunningRead.advance (hash : KeyHash) (btlPolicy : BTLPolicy) (db : StoreDB)
    (running : RunningRead) : Option RunningRead :=
  match running.read.itr with
  | [] => none
  | entry :: rest =>
    match db.visit hash btlPolicy running.read.lastCommittedBlock
        running.read.filter running.read.blockPvtdata entry with
    | .error _ => none
    | .ok blockPvtdata =>
      some { running with read := { running.read with
        itr := rest, blockPvtdata := blockPvtdata } }

def replaceRead (reads : List RunningRead) (index : ℕ) : Option RunningRead → List RunningRead
  | none => reads.eraseIdx index
  | some running => reads.set index running

def World.step (hash : KeyHash) (btlPolicy : BTLPolicy) (purgeInterval : ℕ)
    (world : World) : Event → World
  | .commit input =>
    match world.db.commit hash btlPolicy input with
    | .error _ => world
    | .ok db =>
      { world with
        db := db
        scheduled := performPurgeIfScheduled purgeInterval world.scheduled input.blockNum
        purged := world.purged.insertAll
          (preparePurgerMarkerEntries input.blockNum input.purgeMarkers).1 }
  | .startPurger index =>
    match world.purger, world.scheduled[index]? with
    | none, some latestCommittedBlk =>
      { world with
        scheduled := world.scheduled.eraseIdx index
        purger := some (.expiring (world.db.retrieveExpiryEntries latestCommittedBlk)) }
    | _, _ => world
  | .purgerStep exceeds =>
    match world.purger with
    | none => world
    | some purger =>
      { world with
        db := (purger.step hash world.db exceeds).1
        purger := (purger.step hash world.db exceeds).2 }
  | .beginRead blockNum filter =>
    match world.db.beginRead blockNum filter with
    | .error _ => world
    | .ok read =>
      { world with
        reads :=
          { blockNum := blockNum, read := read
            purged := world.purged } :: world.reads }
  | .visitNext index =>
    match world.reads[index]? with
    | none => world
    | some running =>
      { world with
        reads := replaceRead world.reads index (running.advance hash btlPolicy world.db) }

def World.run (hash : KeyHash) (btlPolicy : BTLPolicy) (purgeInterval : ℕ)
    (world : World) (events : List Event) : World :=
  events.foldl (World.step hash btlPolicy purgeInterval) world

inductive Moves (hash : KeyHash) (btlPolicy : BTLPolicy) (purgeInterval : ℕ)
    (world : World) : Event → World → Prop
  | idle (event : Event) : Moves hash btlPolicy purgeInterval world event world
  | commit {input : CommitInput} {db : StoreDB}
      (hcommit : world.db.commit hash btlPolicy input = .ok db) :
      Moves hash btlPolicy purgeInterval world (.commit input)
        { world with
          db := db
          scheduled := performPurgeIfScheduled purgeInterval world.scheduled input.blockNum
          purged := world.purged.insertAll
            (preparePurgerMarkerEntries input.blockNum input.purgeMarkers).1 }
  | startPurger {index latestCommittedBlk : ℕ} (hfree : world.purger = none) :
      Moves hash btlPolicy purgeInterval world (.startPurger index)
        { world with
          scheduled := world.scheduled.eraseIdx index
          purger := some (.expiring (world.db.retrieveExpiryEntries latestCommittedBlk)) }
  | purgerStep {exceeds : Bool} {purger : Purger} (hpurger : world.purger = some purger) :
      Moves hash btlPolicy purgeInterval world (.purgerStep exceeds)
        { world with
          db := (purger.step hash world.db exceeds).1
          purger := (purger.step hash world.db exceeds).2 }
  | beginRead {blockNum : ℕ} {filter : PvtNsCollFilter} {read : BlockRead}
      (hbegin : world.db.beginRead blockNum filter = .ok read) :
      Moves hash btlPolicy purgeInterval world (.beginRead blockNum filter)
        { world with
          reads :=
            { blockNum := blockNum, read := read
              purged := world.purged } :: world.reads }
  | visitNext {index : ℕ} {running : RunningRead} (hrunning : world.reads[index]? = some running) :
      Moves hash btlPolicy purgeInterval world (.visitNext index)
        { world with
          reads := replaceRead world.reads index (running.advance hash btlPolicy world.db) }

theorem moves_step (hash : KeyHash) (btl : BTLPolicy) (purgeInterval : ℕ) (w : World) (ev : Event) :
    Moves hash btl purgeInterval w ev (w.step hash btl purgeInterval ev) := by
  cases ev with
  | startPurger =>
    dsimp only [World.step]
    split
    next hfr _ => exact .startPurger hfr
    · exact .idle _
  | commit | purgerStep | beginRead | visitNext =>
    dsimp only [World.step]
    split
    · exact .idle _
    · constructor
      assumption

/-! ## The invariant of all runs -/

variable {hash : KeyHash} {btl : BTLPolicy} {purgeInterval : ℕ}

structure ReadFits (btlPolicy : BTLPolicy) (running : RunningRead) : Prop where
  known : ∀ entry ∈ running.read.itr, Known btlPolicy entry.1
  block : ∀ entry ∈ running.read.itr, entry.1.blkNum = running.blockNum
  named : ∀ entry ∈ running.read.itr, entry.2.collectionName = entry.1.coll

structure WorldFits (hash : KeyHash) (btlPolicy : BTLPolicy) (world : World) : Prop where
  store : StoreFits hash world.db world.purger
  known : ∀ dk v, world.db.data.get dk = some v → Known btlPolicy dk
  coll : CollMarkersFit world.db
  purged : ∀ key ht, world.purged.get key = some ht → ht.blockNum < world.db.nextBlockNum
  reads : ∀ running ∈ world.reads, ReadFits btlPolicy running

theorem worldFits_initial : WorldFits hash btl initialWorld where
  store := storeFits_empty
  known := by simp [initialWorld, emptyStore]
  coll := by
    intro _ _ hg
    simp [initialWorld, emptyStore] at hg
  purged := by simp [initialWorld]
  reads := by simp [initialWorld]

theorem addCollMarker_fits (bn : ℕ)
    (es : SortedMap (GoString ×ₗ GoString) Height) (m : PurgeMarker) :
    (∃ ht, (addCollMarker bn es m).get (toLex (m.ns, m.coll)) =
      some ht ∧ (⟨bn, m.txNum⟩ : Height).compare ht ≤ 0) ∧
    ∀ key ht, es.get key = some ht → ∃ lt,
      (addCollMarker bn es m).get key = some lt ∧ ht.compare lt ≤ 0 := by
  have hrf : ∀ ht : Height, ht.compare ht ≤ 0 := by
    intro ht
    simp [Height.compare_nonpos_iff]
  unfold addCollMarker
  dsimp only
  split
  next hno =>
    refine ⟨⟨_, get_insert_self _ _ _, hrf _⟩, ?_⟩
    intro _ ht hg
    refine ⟨ht, ?_, hrf ht⟩
    rw [get_insert_of_ne]
    · exact hg
    · rintro rfl
      rw [hg] at hno
      cases hno
  next visited hv =>
    split
    next hh =>
      refine ⟨⟨visited, hv, ?_⟩, fun key ht hg =>
        ⟨ht, hg, hrf ht⟩⟩
      unfold Height.compare at hh ⊢
      dsimp only at hh ⊢
      split_ifs at hh ⊢ <;> omega
    next hlw =>
      refine ⟨⟨_, get_insert_self _ _ _, hrf _⟩, ?_⟩
      intro _ ht hg
      rw [get_insert]
      split_ifs with hkey
      · subst hkey
        rw [hg] at hv
        cases hv
        exact ⟨_, rfl, not_lt.mp hlw⟩
      · exact ⟨ht, hg, hrf ht⟩

theorem foldl_addCollMarker_fits (bn : ℕ) (purgeMarkers : List PurgeMarker)
    (es : SortedMap (GoString ×ₗ GoString) Height) :
    (∀ m ∈ purgeMarkers, ∃ ht,
      (purgeMarkers.foldl (addCollMarker bn) es).get (toLex (m.ns, m.coll)) = some ht ∧
      (⟨bn, m.txNum⟩ : Height).compare ht ≤ 0) ∧
    ∀ key ht, es.get key = some ht → ∃ lt,
      (purgeMarkers.foldl (addCollMarker bn) es).get key = some lt ∧ ht.compare lt ≤ 0 := by
  induction purgeMarkers generalizing es with
  | nil =>
    refine ⟨by simp, fun key ht hg => ⟨ht, hg, ?_⟩⟩
    simp [Height.compare_nonpos_iff]
  | cons first _ ih =>
    obtain ⟨hf, hkp⟩ := addCollMarker_fits bn es first
    obtain ⟨hrs, hl⟩ := ih (addCollMarker bn es first)
    rw [foldl_cons]
    refine ⟨?_, ?_⟩
    · intro m hm
      rcases mem_cons.mp hm with rfl | hmem
      · obtain ⟨ht, hg, hle⟩ := hf
        obtain ⟨lt, hfn, hh⟩ := hl _ ht hg
        exact ⟨lt, hfn, Height.compare_nonpos_trans hle hh⟩
      · exact hrs m hmem
    · intro key ht hg
      obtain ⟨next, hnx, hle⟩ := hkp key ht hg
      obtain ⟨lt, hfn, hh⟩ := hl key next hnx
      exact ⟨lt, hfn, Height.compare_nonpos_trans hle hh⟩

theorem blockNum_foldl_addCollMarker
    {blkNum : ℕ} {purgeMarkers : List PurgeMarker} {es : SortedMap (GoString ×ₗ GoString) Height}
    (he : ∀ key ht, es.get key = some ht → ht.blockNum = blkNum) (key : GoString ×ₗ GoString)
    (ht : Height) (hg : (purgeMarkers.foldl (addCollMarker blkNum) es).get key = some ht) :
    ht.blockNum = blkNum := by
  induction purgeMarkers generalizing es with
  | nil => exact he key ht hg
  | cons first _ ih =>
    refine ih ?_ hg
    intro other otherHt ho
    have hn : ∀ ver : Height, ver.blockNum = blkNum →
        (es.insert (toLex (first.ns, first.coll)) ver).get other =
          some otherHt → otherHt.blockNum = blkNum := by
      intro _ hv hgt
      rw [get_insert] at hgt
      split_ifs at hgt
      · cases hgt
        exact hv
      · exact he other otherHt hgt
    unfold addCollMarker at ho
    dsimp only at ho
    split at ho
    · exact hn _ rfl ho
    · split at ho
      · exact he other otherHt ho
      · exact hn _ rfl ho

theorem collMarkersFit_commit {db next : StoreDB} {inp : CommitInput}
    (hc : db.commit hash btl inp = .ok next) (hb : Bounded db) (hco : CollMarkersFit db) :
    CollMarkersFit next := by
  obtain ⟨_, es, hpp, rfl⟩ := commit_eq_ok hc
  obtain ⟨-, -, -, -, -, hr, hclm⟩ := prepareStoreEntries_eq_ok hpp
  intro key ht hg
  change ∃ collHt, (db.purgeMarkerColl.insertAll
    es.purgeMarkerCollEntries.entries).get _ = some collHt ∧ _
  rw [get_insertAll_entries, hclm]
  obtain ⟨hn, -⟩ := foldl_addCollMarker_fits inp.blockNum inp.purgeMarkers SortedMap.empty
  rcases mem_of_get_insertAll hg with hmem | ⟨-, hd⟩
  · rw [hr] at hmem
    obtain ⟨m, hm, heq⟩ := mem_map.mp hmem
    cases heq
    obtain ⟨collHt, hl, hle⟩ := hn m hm
    refine ⟨collHt, ?_, hle⟩
    change (((inp.purgeMarkers.foldl (addCollMarker inp.blockNum)
      SortedMap.empty).get (toLex (m.ns, m.coll))).or _) = _
    rw [hl, Option.some_or]
  obtain ⟨collHt, hl, hle⟩ := hco key ht hd
  rw [hl]
  cases hrp : (preparePurgerMarkerEntries inp.blockNum
      inp.purgeMarkers).2.get (toLex (key.ns, key.coll)) with
  | none => exact ⟨collHt, rfl, hle⟩
  | some newHt =>
    refine ⟨newHt, rfl, ?_⟩
    -- The replacement is of a later block than every marker stored so far.
    have hk : newHt.blockNum = inp.blockNum := blockNum_foldl_addCollMarker (by simp) _ _ hrp
    have hlt := hb.purgeMarker key ht hd
    rw [Height.compare_nonpos_iff]
    omega

theorem purgerFits_start (db : StoreDB) (latestCommittedBlk : ℕ) :
    PurgerFits hash db (.expiring (db.retrieveExpiryEntries latestCommittedBlk)) := by
  refine ⟨keys_nodup _, ?_⟩
  intro _ he
  rw [StoreDB.retrieveExpiryEntries, ← get_eq_some_iff, get_restrict] at he
  split_ifs at he
  exact he

def Purger.flushed (db : StoreDB) (exceeds : Bool) : Purger → Option PurgeUpdatesProcessor
  | .marked _ _ (entry :: _) p =>
    if exceeds then some (p.process db entry) else none
  | .marked [] none [] p => some p
  | _ => none

theorem Purger.step_cases (hash : KeyHash) (db : StoreDB) (ex : Bool) (pg : Purger) :
    (∃ e, pg.flushed db ex = none ∧ (pg.step hash db ex).1 = db.purgeExpiryEntry hash e) ∨
    (pg.flushed db ex = none ∧ (pg.step hash db ex).1 = db) ∨
    ∃ batch, pg.flushed db ex = some batch ∧
      (pg.step hash db ex).1 = db.commitPendingChanges batch := by
  unfold Purger.step
  split
  next e _ => exact .inl ⟨e, rfl, rfl⟩
  · exact .inr (.inl ⟨rfl, rfl⟩)
  · dsimp only
    unfold Purger.flushed
    cases ex with
    | true => exact .inr (.inr ⟨_, rfl, rfl⟩)
    | false => exact .inr (.inl ⟨rfl, rfl⟩)
  · exact .inr (.inl ⟨by cases ‹List _› <;> rfl, rfl⟩)
  · exact .inr (.inl ⟨rfl, rfl⟩)
  · exact .inr (.inr ⟨_, rfl, rfl⟩)

variable {db : StoreDB}

theorem Purger.flushed_fits {ex : Bool} {pg : Purger}
    {batch : PurgeUpdatesProcessor} (hhs : Function.Injective hash)
    (hft : StoreFits hash db (some pg)) (hfl : pg.flushed db ex = some batch) :
    ∃ markers cur i, MarkedFits hash db markers cur i batch := by
  have hr := hft.purger pg rfl
  unfold Purger.flushed at hfl
  split at hfl
  · split at hfl
    · cases hfl
      exact ⟨_, _, _, markedFits_process hhs hft.index hr⟩
    · cases hfl
  · cases hfl
    exact ⟨_, _, _, hr⟩
  · cases hfl

theorem nextBlockNum_purgerStep (hash : KeyHash) (db : StoreDB) (ex : Bool) (pg : Purger) :
    (pg.step hash db ex).1.nextBlockNum = db.nextBlockNum := by
  rcases pg.step_cases hash db ex with ⟨e, -, hdb⟩ | ⟨-, hdb⟩ | ⟨batch, -, hdb⟩
  all_goals rw [hdb]
  all_goals rfl

structure Shrinks (db next : StoreDB) : Prop where
  data : ∀ dk v, next.data.get dk = some v → ∃ before,
    db.data.get dk = some before ∧ ∀ w ∈ v.kvRwSet.writes, w ∈ before.kvRwSet.writes
  marker : ∀ key ht, next.purgeMarker.get key = some ht → db.purgeMarker.get key = some ht
  coll : next.purgeMarkerColl = db.purgeMarkerColl
  last : next.lastCommittedBlock = db.lastCommittedBlock

theorem shrinks_purgerStep (ex : Bool) {pg : Purger} (hhs : Function.Injective hash)
    (hft : StoreFits hash db (some pg)) : Shrinks db (pg.step hash db ex).1 := by
  rcases pg.step_cases hash db ex with ⟨e, -, hdb⟩ | ⟨-, hdb⟩ | ⟨batch, hfl, hdb⟩
  · rw [hdb]
    exact
      { data := fun dk v hg =>
          ⟨v, (get_data_of_purgeExpiryEntry hg).2, fun w hw => hw⟩
        marker := fun key ht hg => hg
        coll := rfl
        last := rfl }
  · rw [hdb]
    exact
      { data := fun dk v hg => ⟨v, hg, fun w hw => hw⟩
        marker := fun key ht hg => hg
        coll := rfl
        last := rfl }
  obtain ⟨_, _, _, hmr⟩ := Purger.flushed_fits hhs hft hfl
  rw [hdb]
  refine ⟨?_, ?_, rfl, rfl⟩
  · intro _ _ hg
    rw [get_data_commitPendingChanges hmr.processor, Option.map_eq_some_iff] at hg
    obtain ⟨pre, hp, rfl⟩ := hg
    exact ⟨pre, hp, fun w hw => mem_of_mem_filter hw⟩
  intro key ht hg
  have hee : (db.purgeMarker.eraseAll (batch.deletedMarkers.map Prod.fst)).get key = some ht := hg
  rw [get_eraseAll] at hee
  split_ifs at hee
  exact hee

section

variable {rd next : RunningRead} (hadv : rd.advance hash btl db = some next)

include hadv

theorem advance_eq_some :
    ∃ e tl blockPvtdata, rd.read.itr = e :: tl ∧
      db.visit hash btl rd.read.lastCommittedBlock
        rd.read.filter rd.read.blockPvtdata e = .ok blockPvtdata ∧
      next = { rd with read := { rd.read with
        itr := tl, blockPvtdata := blockPvtdata } } := by
  unfold RunningRead.advance at hadv
  split at hadv
  · cases hadv
  next e tl ht =>
    split at hadv
    · cases hadv
    next blockPvtdata hvs =>
      cases hadv
      exact ⟨e, tl, blockPvtdata, ht, hvs, rfl⟩

theorem readFits_advance (hft : ReadFits btl rd) : ReadFits btl next := by
  obtain ⟨e, tl, _, ht, -, rfl⟩ := advance_eq_some hadv
  have hm : ∀ other ∈ tl, other ∈ rd.read.itr := by
    intro _ ho
    rw [ht]
    exact mem_cons_of_mem e ho
  exact
    { known := fun other ho => hft.known other (hm other ho)
      block := fun other ho => hft.block other (hm other ho)
      named := fun other ho => hft.named other (hm other ho) }

end

theorem mem_replaceRead {reads : List RunningRead} {i : ℕ}
    {advanced : Option RunningRead} {rd : RunningRead} (hm : rd ∈ replaceRead reads i advanced) :
    rd ∈ reads ∨ advanced = some rd := by
  cases advanced with
  | none => exact .inl (mem_of_mem_eraseIdx hm)
  | some =>
    rcases mem_or_eq_of_mem_set hm with hold | rfl
    · exact .inl hold
    · exact .inr rfl

theorem readFits_begin {w : World} {blockNum : ℕ} {filter : PvtNsCollFilter} {read : BlockRead}
    (hft : WorldFits hash btl w) (hbg : w.db.beginRead blockNum filter = .ok read) :
    ReadFits btl
      { blockNum := blockNum, read := read, purged := w.purged } := by
  obtain ⟨_, -, -, rfl⟩ := beginRead_eq_ok.mp hbg
  exact
    { known := fun e he => hft.known _ _ (mem_itr.mp he).1
      block := fun e he => (mem_itr.mp he).2
      named := fun e he =>
        hft.store.index.named _ _ (mem_itr.mp he).1 }

theorem worldFits_step {w next : World} {ev : Event}
    (hmv : Moves hash btl purgeInterval w ev next) (hhs : Function.Injective hash)
    (hds : ∀ inp, ev = .commit inp → inp.Distinct) (hft : WorldFits hash btl w) :
    WorldFits hash btl next := by
  cases hmv with
  | idle => exact hft
  | @commit inp _ hc =>
    have hnx := nextBlockNum_commit hc
    obtain ⟨_, -⟩ := commit_eq_ok hc
    exact
      { store := storeFits_commit hhs hc (hds inp rfl)
          hft.store
        known := known_commit hc hft.known
        coll := collMarkersFit_commit hc hft.store.bounded hft.coll
        purged := by
          intro key ht hg
          dsimp only
          rcases mem_of_get_insertAll hg with hnew | ⟨-, hl⟩
          · obtain ⟨_, -, heq⟩ := mem_map.mp hnew
            cases heq
            dsimp only
            omega
          · have hlt := hft.purged key ht hl
            omega
        reads := hft.reads }
  | startPurger =>
    exact
      { hft with
        store :=
          { hft.store with
            purger := by
              rintro _ ⟨⟩
              exact purgerFits_start w.db _ } }
  | @purgerStep ex purger hprg =>
    have hst : StoreFits hash w.db (some purger) := hprg ▸ hft.store
    have hs := shrinks_purgerStep ex hhs hst
    exact
      { store := storeFits_step ex hhs hst
        known := by
          intro dk v hg
          obtain ⟨pre, hp, -⟩ := hs.data dk v hg
          exact hft.known dk pre hp
        coll := by
          intro key ht hg
          dsimp only at hg ⊢
          rw [hs.coll]
          exact hft.coll key ht (hs.marker key ht hg)
        purged := by
          intro key ht hg
          dsimp only
          rw [nextBlockNum_purgerStep]
          exact hft.purged key ht hg
        reads := hft.reads }
  | beginRead hbg =>
    refine { hft with reads := ?_ }
    intro rd hm
    rcases mem_cons.mp hm with rfl | hl
    · exact readFits_begin hft hbg
    · exact hft.reads rd hl
  | @visitNext _ rd hr =>
    refine { hft with reads := ?_ }
    intro other hm
    rcases mem_replaceRead hm with hl | hadv
    · exact hft.reads other hl
    · exact readFits_advance hadv (hft.reads rd (mem_of_getElem? hr))

end FabricSequencer.Pvtdatastorage
