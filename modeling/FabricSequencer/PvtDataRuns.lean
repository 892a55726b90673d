import FabricSequencer.PvtDataInvariant

/-!
# Runs of the private data store

Commits, commits of data of old blocks, the purger and the eligibility
goroutine, in any order that the lock allows.  All of them keep the
representation invariant for inputs that are consistent in themselves, except
the goroutine: it reads the ineligible entries of a collection, and writes them
back as prioritized ones after it has slept without the lock.
-/

namespace FabricSequencer.Pvtdatastorage

open SortedMap List StoreWorld Function

variable {hash : KeyHash} {btl : BTLPolicy} {purgeInterval ival : ℕ}

/-- A commit has one write set for each transaction and collection; reconciled
data was missing; unreconciled data is missing and not among it. -/
def StoreEvent.WellFormed (db : StoreDB) : StoreEvent → Prop
  | .commit input => input.Distinct
  | .commitOldBlocks blocksPvtData unreconciledMissingData =>
    (∀ entry ∈ dataEntriesOfBlocks blocksPvtData, db.Misses entry.1 ∧
      (entry.2.kvRwSet.writes.map KVWrite.key).Nodup) ∧
    ∀ dk ∈ missingDataKeys unreconciledMissingData, db.Misses dk ∧
      ∀ v, (dk, v) ∉ dataEntriesOfBlocks blocksPvtData
  | _ => True

def CollElgProc.flushed (exceeds : Bool) (proc : CollElgProc) : Option MissingData :=
  match proc.collItr, proc.tasks with
  | entry :: _, _ =>
    if exceeds then some (proc.converted.insert entry.1 entry.2) else none
  | [], [] => some proc.converted
  | [], _ => none

/-- The event breaks the representation: a commit that contradicts itself, a
commit of old blocks with data of a collection of which the peer is not a
member, or a batch of the eligibility goroutine that puts entries back. -/
def Spoils (hash : KeyHash) (btlPolicy : BTLPolicy) (world : StoreWorld) : StoreEvent → Prop
  | .commit input => (∃ db, world.db.commit hash btlPolicy input = .ok db) ∧ input.Contradicts
  | .commitOldBlocks blocksPvtData unreconciledMissingData =>
    world.unlocked = true ∧
    (∃ db, world.db.commitPvtDataOfOldBlocks hash btlPolicy blocksPvtData
      unreconciledMissingData = .ok db) ∧
    ((∃ entry ∈ dataEntriesOfBlocks blocksPvtData, world.db.inelgMissingData.Has entry.1) ∨
      ∃ dk ∈ missingDataKeys unreconciledMissingData,
        world.db.inelgMissingData.Has dk ∧ world.db.elgPrioMissingData.Records dk.nsCollBlk)
  | .collElgStep exceeds =>
    ∃ proc converted, world.elg = .holding proc ∧ proc.flushed exceeds = some converted ∧
      PutsBack btlPolicy world.db converted
  | _ => False

structure ProcBounded (db : StoreDB) (proc : CollElgProc) : Prop where
  collItr : ∀ entry ∈ proc.collItr, entry.1.blkNum < db.nextBlockNum
  converted : ∀ key, proc.converted.Records key → key.blkNum < db.nextBlockNum

def ElgBounded (db : StoreDB) : CollElgState → Prop
  | .waiting => True
  | .holding proc => ProcBounded db proc
  | .sleeping proc => ProcBounded db proc

structure StoreWorldFits (hash : KeyHash) (world : StoreWorld) : Prop where
  bounded : Bounded world.db
  missing : MissingBounded world.db
  purger : ∀ running ∈ world.purger, PurgerFits hash world.db running
  elg : ElgBounded world.db world.elg

theorem storeWorldFits_initial : StoreWorldFits hash initialStoreWorld where
  bounded := by
    have hn : StoreFits hash emptyStore none := storeFits_empty
    exact hn.bounded
  missing := by
    rintro _ (hrc | hrc | hrc)
    all_goals exact absurd hrc not_records_empty
  purger := by simp [initialStoreWorld]
  elg := trivial

variable {db next : StoreDB}

theorem nextBlockNum_eq_of_last (hla : next.lastCommittedBlock = db.lastCommittedBlock) :
    next.nextBlockNum = db.nextBlockNum := by
  unfold StoreDB.nextBlockNum
  rw [hla]

theorem elgBounded_of_le {elg : CollElgState}
    (hl : ElgBounded db elg) (hle : db.nextBlockNum ≤ next.nextBlockNum) :
    ElgBounded next elg := by
  have hpc : ∀ proc, ProcBounded db proc → ProcBounded next proc :=
    fun proc hb =>
      { collItr := fun e he =>
          lt_of_lt_of_le (hb.collItr e he) hle
        converted := fun key hrc =>
          lt_of_lt_of_le (hb.converted key hrc) hle }
  cases elg with
  | waiting => trivial
  | holding proc | sleeping proc => exact hpc proc hl

theorem bounded_congr (hb : Bounded db) (hla : next.lastCommittedBlock = db.lastCommittedBlock)
    (hdt : next.data = db.data) (hx : next.expiry = db.expiry)
    (hmr : next.purgeMarker = db.purgeMarker) : Bounded next := by
  have hnx := nextBlockNum_eq_of_last hla
  refine ⟨?_, ?_, ?_⟩
  · rw [hdt, hnx]
    exact hb.data
  · rw [hx, hnx]
    exact hb.expiry
  · rw [hmr, hnx]
    exact hb.purgeMarker

variable {purger : Purger}

theorem purgerFits_congr (hft : PurgerFits hash db purger)
    (hla : next.lastCommittedBlock = db.lastCommittedBlock)
    (hdt : next.data = db.data) (hi : next.hashedIndex = db.hashedIndex)
    (hx : next.expiry = db.expiry) : PurgerFits hash next purger := by
  obtain ⟨la, data, hashedIndex, purgeMarker, purgeMarkerColl, forRecon,
    expiry, prio, deprio, inelg, collElg⟩ := next
  cases hla
  cases hdt
  cases hi
  cases hx
  cases purger with
  | expiring => exact hft
  | marked markers cur i p =>
    have hmr : MarkedFits hash db markers cur i p := hft
    exact
      { hmr with processor := ⟨hmr.processor.trimmed, hmr.processor.deleted⟩ }

theorem purger_eq_none_of_unlocked {w : StoreWorld}
    (hun : w.unlocked = true) : w.purger = none := by
  unfold unlocked at hun
  split at hun
  · assumption
  · assumption
  · cases hun

theorem bounded_oldBlocks {des : List DataEntry} {unreconciled : List DataKey}
    {es : OldBlockEntries} (hcm : CommitsOldBlocks btl hash db next des unreconciled es)
    (hms : ∀ e ∈ des, db.Misses e.1) (hb : Bounded db) (hr : MissingBounded db) :
    Bounded next := by
  have hnx := nextBlockNum_eq_of_last hcm.last
  refine ⟨?_, ?_, ?_⟩
  · intro dk v hg
    rw [hnx]
    rw [get_data_oldBlocks hcm] at hg
    cases hn : es.dataEntries.get dk with
    | none =>
      rw [hn, Option.none_or] at hg
      exact hb.data dk v hg
    | some sd =>
      have hm := hcm.prepared.source dk sd hn
      exact hr _ (hms _ hm).records
  · intro key value hg
    rw [hnx]
    rw [hcm.expiry, get_insertAll_entries] at hg
    cases hn : es.expiryEntries.get key with
    | none =>
      rw [hn, Option.none_or] at hg
      exact hb.expiry key value hg
    | some lt =>
      obtain ⟨pre, hp, -⟩ := hcm.prepared.expirySource key lt hn
      exact hb.expiry key pre hp
  · rw [hcm.purgeMarker, hnx]
    exact hb.purgeMarker

variable {exceeds : Bool}

theorem represents_purgerStep (hhs : Injective hash) (hft : StoreFits hash db (some purger))
    (hrep : Represents hash btl db) : Represents hash btl (purger.step hash db exceeds).1 := by
  have hr := hft.purger purger rfl
  unfold Purger.step
  split
  next e _ =>
    exact represents_purgeExpiryEntry (hr.2 e mem_cons_self) hrep
  · exact hrep
  next =>
    have hnx := markedFits_process hhs hft.index hr
    dsimp only
    split
    · exact represents_commitPendingChanges hnx.processor hrep
    · exact hrep
  · exact hrep
  · exact hrep
  next p =>
    have hmr : MarkedFits hash db [] none [] p := hr
    exact represents_commitPendingChanges hmr.processor hrep

theorem recordsMissing_of_purgerStep {key : NsCollBlk}
    (hrc : (purger.step hash db exceeds).1.RecordsMissing key) :
    db.RecordsMissing key := by
  rcases purger.step_cases hash db exceeds with ⟨e, -, hdb⟩ | ⟨-, hdb⟩ | ⟨batch, -, hdb⟩
  · rw [hdb] at hrc
    rcases hrc with hprio | hdep | hinelg
    · exact .inl (records_eraseAll.mp hprio).2
    · exact .inr (.inl (records_eraseAll.mp hdep).2)
    · exact .inr (.inr (records_eraseAll.mp hinelg).2)
  · rw [hdb] at hrc
    exact hrc
  · rw [hdb] at hrc
    exact hrc

theorem CollElgProc.step_cases (db : StoreDB) (exceeds : Bool) (proc : CollElgProc) :
    (∃ cv, proc.flushed exceeds = some cv ∧
      (proc.step db exceeds).1 = db.convertMissingData cv proc.forgotten) ∨
    (proc.flushed exceeds = none ∧ (proc.step db exceeds).1 = db) := by
  rcases proc with ⟨tasks, collItr, _, _⟩
  cases collItr with
  | cons =>
    cases exceeds with
    | true => exact .inl ⟨_, rfl, rfl⟩
    | false => exact .inr ⟨rfl, rfl⟩
  | nil =>
    cases tasks with
    | nil => exact .inl ⟨_, rfl, rfl⟩
    | cons task => cases task <;> exact .inr ⟨rfl, rfl⟩

theorem elgBounded_step (exceeds : Bool) {proc : CollElgProc}
    (hms : MissingBounded db) (hb : ProcBounded db proc) :
    ElgBounded db (proc.step db exceeds).2 ∧
      ∀ cv, proc.flushed exceeds = some cv → ∀ key,
        cv.Records key → key.blkNum < db.nextBlockNum := by
  rcases proc with ⟨tasks, collItr, cv, _⟩
  obtain ⟨hc, hcn⟩ := hb
  dsimp only at hc hcn
  cases collItr with
  | cons e collItr =>
    have hrs : ∀ other ∈ collItr, other.1.blkNum < db.nextBlockNum :=
      fun other ho => hc other (mem_cons_of_mem e ho)
    have ha : ∀ key, MissingData.Records (cv.insert e.1 e.2) key →
        key.blkNum < db.nextBlockNum := by
      rintro key ⟨bm, hg⟩
      rw [get_insert] at hg
      split_ifs at hg with hkey
      · rw [hkey]
        exact hc e mem_cons_self
      · exact hcn key ⟨bm, hg⟩
    cases exceeds with
    | true =>
      refine ⟨⟨hrs, fun key hrc =>
        absurd hrc not_records_empty⟩, ?_⟩
      rintro _ ⟨⟩
      exact ha
    | false =>
      refine ⟨⟨hrs, ha⟩, ?_⟩
      rintro _ ⟨⟩
  | nil =>
    cases tasks with
    | nil =>
      refine ⟨trivial, ?_⟩
      rintro _ ⟨⟩
      exact hcn
    | cons task =>
      cases task with
      | convert =>
        refine ⟨⟨?_, hcn⟩, ?_⟩
        · intro e he
          unfold StoreDB.inelgMissingDataUpTo at he
          rw [mem_reverse, ← get_eq_some_iff, get_restrict] at he
          split_ifs at he
          exact hms e.1 (.inr (.inr ⟨e.2, he⟩))
        · rintro _ ⟨⟩
      | forget =>
        refine ⟨⟨hc, hcn⟩, ?_⟩
        rintro _ ⟨⟩

/-! ## One step -/

def StepOutcome (hash : KeyHash) (btlPolicy : BTLPolicy) (world next : StoreWorld)
    (event : StoreEvent) : Prop :=
  StoreWorldFits hash next ∧
    (Represents hash btlPolicy next.db ↔ ¬ Spoils hash btlPolicy world event)

section Step

variable {w : StoreWorld} (hft : StoreWorldFits hash w) (hrep : Represents hash btl w.db)

include hft hrep

theorem outcome_unchanged {ev : StoreEvent} (hfn : ¬ Spoils hash btl w ev) :
    StepOutcome hash btl w w ev :=
  ⟨hft, iff_of_true hrep hfn⟩

theorem outcome_commit {inp : CommitInput} (hhs : Injective hash) (hds : inp.Distinct) :
    StepOutcome hash btl w (w.step hash btl ival (.commit inp)) (.commit inp) := by
  dsimp only [step]
  split
  next herr =>
    refine outcome_unchanged hft hrep ?_
    rintro ⟨⟨_, hok⟩, -⟩
    rw [herr] at hok
    cases hok
  next db hc =>
    refine ⟨?_, ?_⟩
    · exact
        { bounded := bounded_commit hc hft.bounded
          missing := missingBounded_commit hc hft.missing
          purger := fun running hr =>
            purgerFits_commit hc hft.bounded (hft.purger running hr)
          elg := by
            refine elgBounded_of_le hft.elg ?_
            dsimp only
            rw [nextBlockNum_commit hc]
            exact Nat.le_succ _ }
    · constructor
      · rintro hnext ⟨-, hcn⟩
        exact not_contradicts_of_represents hc hft.missing hds hnext hcn
      · intro hfn
        exact represents_commit hc hhs hft.bounded hft.missing hds hrep fun hcn =>
            hfn ⟨⟨db, hc⟩, hcn⟩

theorem outcome_commitOldBlocks {blocksPvtData : BlocksPvtData}
    {unreconciledMissingData : MissingPvtDataInfo} (hhs : Injective hash)
    (hwl : StoreEvent.WellFormed w.db (.commitOldBlocks blocksPvtData unreconciledMissingData)) :
    StepOutcome hash btl w
      (w.step hash btl ival (.commitOldBlocks blocksPvtData unreconciledMissingData))
      (.commitOldBlocks blocksPvtData unreconciledMissingData) := by
  obtain ⟨hdt, hue⟩ := hwl
  have hms : ∀ e ∈ dataEntriesOfBlocks blocksPvtData, w.db.Misses e.1 := fun e he => (hdt e he).1
  have hw : ∀ e ∈ dataEntriesOfBlocks blocksPvtData,
      e.2.collectionName = e.1.coll ∧ (e.2.kvRwSet.writes.map KVWrite.key).Nodup := by
    intro e he
    obtain ⟨_, -, hb⟩ := mem_flatMap.mp he
    exact ⟨(mem_prepareDataEntries hb).2, (hdt e he).2⟩
  dsimp only [step]
  split
  next hun =>
    split
    next hr =>
      refine outcome_unchanged hft hrep ?_
      rintro ⟨-, ⟨_, hok⟩, -⟩
      rw [hr] at hok
      cases hok
    next db hc =>
      obtain ⟨_, hcm⟩ := commitPvtDataOfOldBlocks_eq_ok hc fun dk hpr => (hrep.prioOnly dk hpr).1
      have hnx := nextBlockNum_eq_of_last hcm.last
      refine ⟨?_, ?_⟩
      · exact
          { bounded := bounded_oldBlocks hcm hms hft.bounded
              hft.missing
            missing := by
              intro key hrc
              dsimp only
              rw [hnx]
              exact hft.missing key (hcm.records key hrc)
            purger := by
              rw [purger_eq_none_of_unlocked hun]
              rintro _ ⟨⟩
            elg := elgBounded_of_le hft.elg hnx.ge }
      · constructor
        · rintro hafter ⟨-, -, hs⟩
          obtain ⟨hfn, hfn'⟩ := not_spoiled_of_represents_oldBlocks hcm hms hrep hafter
          rcases hs with ⟨e, he, hin⟩ | ⟨dk, hdk, hin, hrc⟩
          · exact hfn e he hin
          · exact hfn' dk hdk hin hrc
        · intro hfn
          apply represents_oldBlocks hcm hms hrep hhs hw hue
          · intro e he hin
            exact hfn ⟨hun, ⟨db, hc⟩, .inl ⟨e, he, hin⟩⟩
          · intro dk hdk hin hrc
            exact hfn ⟨hun, ⟨db, hc⟩, .inr ⟨dk, hdk, hin, hrc⟩⟩
  next hl =>
    exact outcome_unchanged hft hrep fun hs =>
      hl hs.1

theorem outcome_collsEligible {committingBlk : ℕ} {nsCollMap : SortedMap GoString (List GoString)} :
    StepOutcome hash btl w (w.step hash btl ival (.collsEligible committingBlk nsCollMap))
      (.collsEligible committingBlk nsCollMap) := by
  refine ⟨?_, iff_of_true (represents_congr hrep rfl rfl rfl rfl rfl rfl) id⟩
  exact
    { bounded := bounded_congr hft.bounded rfl rfl rfl rfl
      missing := hft.missing
      purger := fun running hr =>
        purgerFits_congr (hft.purger running hr) rfl rfl rfl rfl
      elg := elgBounded_of_le hft.elg le_rfl }

theorem outcome_purgerStep (hhs : Injective hash) :
    StepOutcome hash btl w (w.step hash btl ival (.purgerStep exceeds)) (.purgerStep exceeds) := by
  dsimp only [step]
  split
  · exact outcome_unchanged hft hrep id
  next purger hp =>
    have hst : StoreFits hash w.db (some purger) :=
      { bounded := hft.bounded
        index := hrep.index
        purger := by
          rintro _ ⟨⟩
          exact hft.purger purger hp }
    have haf := storeFits_step exceeds hhs hst
    have hnx := nextBlockNum_purgerStep hash w.db exceeds purger
    refine ⟨?_, iff_of_true (represents_purgerStep hhs hst hrep) id⟩
    exact
      { bounded := haf.bounded
        missing := by
          intro key hrc
          dsimp only
          rw [hnx]
          exact hft.missing key (recordsMissing_of_purgerStep hrc)
        purger := haf.purger
        elg := elgBounded_of_le hft.elg hnx.ge }

theorem outcome_startPurger {i : ℕ} :
    StepOutcome hash btl w (w.step hash btl ival (.startPurger i)) (.startPurger i) := by
  dsimp only [step]
  split
  · refine ⟨?_, iff_of_true hrep id⟩
    exact
      { bounded := hft.bounded
        missing := hft.missing
        purger := by
          rintro _ ⟨⟩
          exact purgerFits_start w.db _
        elg := hft.elg }
  · exact outcome_unchanged hft hrep id

theorem outcome_collElgStep :
    StepOutcome hash btl w (w.step hash btl ival (.collElgStep exceeds))
      (.collElgStep exceeds) := by
  dsimp only [step]
  split
  next proc hh =>
    have hpc : ProcBounded w.db proc := by
      have hl := hft.elg
      rw [hh] at hl
      exact hl
    obtain ⟨haf, hfs⟩ := elgBounded_step exceeds hft.missing hpc
    rcases proc.step_cases w.db exceeds with ⟨cv, hfl, hdb⟩ | ⟨hfl, hdb⟩
    · rw [hdb]
      refine ⟨?_, ?_⟩
      · exact
          { bounded := bounded_congr hft.bounded rfl rfl rfl rfl
            missing := by
              intro key hrc
              rcases records_convert hrc with hnew | hold
              · exact hfs cv hfl key hnew
              · exact hft.missing key hold
            purger := fun running hr =>
              purgerFits_congr (hft.purger running hr) rfl rfl rfl rfl
            elg := elgBounded_of_le haf le_rfl }
      · rw [represents_convert_iff hrep, not_iff_not]
        constructor
        · intro hpt
          exact ⟨proc, cv, hh, hfl, hpt⟩
        rintro ⟨_, _, hh', hf', hpt⟩
        rw [hh] at hh'
        cases hh'
        rw [hfl] at hf'
        cases hf'
        exact hpt
    · rw [hdb]
      refine ⟨{ hft with elg := haf }, iff_of_true hrep ?_⟩
      rintro ⟨_, _, hh', hf', -⟩
      rw [hh] at hh'
      cases hh'
      rw [hfl] at hf'
      cases hf'
  next ho =>
    refine outcome_unchanged hft hrep ?_
    rintro ⟨proc, _, hh, -⟩
    exact ho proc hh

theorem outcome_startCollElg {order : NsOrder} :
    StepOutcome hash btl w (w.step hash btl ival (.startCollElg order)) (.startCollElg order) := by
  dsimp only [step]
  split
  · refine ⟨{ hft with elg := ⟨by simp [StoreDB.startCollElgProc], ?_⟩ }, iff_of_true hrep id⟩
    exact fun key hrc => absurd hrc not_records_empty
  · exact outcome_unchanged hft hrep id

theorem outcome_wakeCollElg :
    StepOutcome hash btl w (w.step hash btl ival .wakeCollElg) .wakeCollElg := by
  dsimp only [step]
  split
  next hsl =>
    have hl := hft.elg
    rw [hsl] at hl
    exact ⟨{ hft with elg := hl }, iff_of_true hrep id⟩
  · exact outcome_unchanged hft hrep id

theorem outcome_step {ev : StoreEvent} (hhs : Injective hash) (hwl : ev.WellFormed w.db) :
    StepOutcome hash btl w (w.step hash btl ival ev) ev := by
  cases ev with
  | commit => exact outcome_commit hft hrep hhs hwl
  | commitOldBlocks => exact outcome_commitOldBlocks hft hrep hhs hwl
  | collsEligible => exact outcome_collsEligible hft hrep
  | startPurger => exact outcome_startPurger hft hrep
  | purgerStep => exact outcome_purgerStep hft hrep hhs
  | startCollElg => exact outcome_startCollElg hft hrep
  | wakeCollElg => exact outcome_wakeCollElg hft hrep
  | collElgStep => exact outcome_collElgStep hft hrep

end Step

variable {events : List StoreEvent}

theorem storeRun_take_succ {w : StoreWorld} {n : ℕ} {ev : StoreEvent} (hev : events[n]? = some ev) :
    w.run hash btl ival (events.take (n + 1)) =
      (w.run hash btl ival (events.take n)).step hash btl ival ev := by
  rw [run, take_add_one, hev, foldl_append]
  rfl

theorem storeWorldFits_run (hhs : Injective hash)
    (hn : ∀ (n : ℕ) (ev : StoreEvent), events[n]? = some ev →
      ev.WellFormed (initialStoreWorld.run hash btl ival (events.take n)).db)
    (n : ℕ)
    (hrep : ∀ m < n, Represents hash btl (initialStoreWorld.run hash btl ival (events.take m)).db) :
    StoreWorldFits hash (initialStoreWorld.run hash btl ival (events.take n)) := by
  induction n with
  | zero => exact storeWorldFits_initial
  | succ n ih =>
    have hp := ih fun m hm => hrep m (Nat.lt_succ_of_lt hm)
    cases hev : events[n]? with
    | none =>
      rw [take_add_one, hev]
      simpa using hp
    | some ev =>
      rw [storeRun_take_succ hev]
      exact (outcome_step hp (hrep n (Nat.lt_succ_self n)) hhs (hn n ev hev)).1

/-- The representation invariant holds along a run with inputs that are about
missing data, exactly if no commit contradicts itself, no data of an ineligible
entry is reconciled, and the eligibility goroutine puts back no entry that has
been purged, stored or deprioritized while it slept. -/
theorem represents_run_iff (hhash : Function.Injective hash) (events : List StoreEvent)
    (hinputs : ∀ (n : ℕ) (event : StoreEvent), events[n]? = some event →
      event.WellFormed (initialStoreWorld.run hash btlPolicy purgeInterval (events.take n)).db) :
    (∀ n, Represents hash btlPolicy
      (initialStoreWorld.run hash btlPolicy purgeInterval (events.take n)).db) ↔
    ∀ n event, events[n]? = some event →
      ¬ Spoils hash btlPolicy (initialStoreWorld.run hash btlPolicy purgeInterval (events.take n))
        event := by
  constructor
  · intro hrep n event hev
    have hft := storeWorldFits_run hhash hinputs n fun m _ => hrep m
    have hnx := hrep (n + 1)
    rw [storeRun_take_succ hev] at hnx
    exact (outcome_step hft (hrep n) hhash (hinputs n event hev)).2.mp hnx
  intro hfn n
  induction n using Nat.strong_induction_on with
  | _ n ih =>
    cases n with
    | zero => exact represents_empty
    | succ n =>
      have hpre := ih n (Nat.lt_succ_self n)
      cases hev : events[n]? with
      | none =>
        rw [take_add_one, hev]
        simpa using hpre
      | some event =>
        have hft := storeWorldFits_run hhash hinputs n fun m hm => ih m (Nat.lt_succ_of_lt hm)
        rw [storeRun_take_succ hev]
        exact (outcome_step hft hpre hhash (hinputs n event hev)).2.mpr (hfn n event hev)

def plainHash : KeyHash := fun key => key

def oneBlockBTLPolicy : BTLPolicy where
  getBTL := fun _ _ => .ok 1

def ineligibleCommit (blockNum : ℕ) : CommitInput where
  blockNum := blockNum
  pvtData := []
  missingPvtData := SortedMap.insert SortedMap.empty 0
    [{ nameSpace := [1], collection := [2], isEligible := false }]
  purgeMarkers := []

def emptyCommit (blockNum : ℕ) : CommitInput where
  blockNum := blockNum
  pvtData := []
  missingPvtData := SortedMap.empty
  purgeMarkers := []

/-- The peer becomes a member of the collection.  The goroutine reads two
entries, converts the newer one and sleeps.  Meanwhile the older one expires
and is purged; then the goroutine converts it. -/
def sleepingConversion : List StoreEvent :=
  [.commit (emptyCommit 0), .commit (ineligibleCommit 1), .commit (ineligibleCommit 2),
   .collsEligible 2 (SortedMap.insert SortedMap.empty [1] [[2]]),
   .startCollElg (fun _ => id), .collElgStep false, .collElgStep true,
   .commit (emptyCommit 3),
   .startPurger 3, .purgerStep false, .purgerStep false, .purgerStep false,
   .wakeCollElg, .collElgStep false, .collElgStep false, .collElgStep false]

theorem sleepingConversion_wellFormed (db : StoreDB) (ev : StoreEvent)
    (hev : ev ∈ sleepingConversion) : ev.WellFormed db := by
  have hn : ∀ inp : CommitInput, inp.pvtData = [] → inp.Distinct := by
    intro _ hin
    refine ⟨?_, ?_⟩ <;> simp [hin, prepareDataEntries]
  simp only [sleepingConversion, mem_cons, not_mem_nil, or_false] at hev
  rcases hev with rfl | rfl | rfl | rfl | rfl | rfl | rfl | rfl | rfl |
    rfl | rfl | rfl | rfl | rfl | rfl | rfl
  all_goals first | exact trivial | exact hn _ rfl

theorem represents_run_sample :
    (∀ n, Represents plainHash oneBlockBTLPolicy
      (initialStoreWorld.run plainHash oneBlockBTLPolicy 1 (sleepingConversion.take n)).db) ↔
    ∀ n event, sleepingConversion[n]? = some event →
      ¬ Spoils plainHash oneBlockBTLPolicy
        (initialStoreWorld.run plainHash oneBlockBTLPolicy 1 (sleepingConversion.take n)) event :=
  represents_run_iff (fun _ _ hsm => hsm) sleepingConversion
    fun _ event hev => sleepingConversion_wellFormed _ event (mem_of_getElem? hev)

theorem not_represents_sample :
    ¬ ∀ n, Represents plainHash oneBlockBTLPolicy
      (initialStoreWorld.run plainHash oneBlockBTLPolicy 1 (sleepingConversion.take n)).db := by
  intro hrep
  have hput : (initialStoreWorld.run plainHash oneBlockBTLPolicy 1
      (sleepingConversion.take 16)).db.elgPrioMissingData.get ⟨[1], [2], 1⟩ = some {0} := by
    decide +kernel
  have hpu : (initialStoreWorld.run plainHash oneBlockBTLPolicy 1
      (sleepingConversion.take 16)).db.expiry.get ⟨3, 1⟩ |>.isNone := by
    decide +kernel
  obtain ⟨value, hval, -⟩ := (hrep 16).listedMissing ⟨[1], [2], 1⟩ (.inl ⟨_, hput⟩) 3 rfl rfl
  have hsm : (initialStoreWorld.run plainHash oneBlockBTLPolicy 1
      (sleepingConversion.take 16)).db.expiry.get ⟨3, 1⟩ = some value := hval
  rw [hsm] at hpu
  cases hpu

end FabricSequencer.Pvtdatastorage
