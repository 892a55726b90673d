import FabricSequencer.SimulationConsistency

/-!
# When simulation results are valid on the state they were made on

The read-write set of a simulation is validated against the same state.  Two
things a caller can do make it fail: leave a range scan open, and read several
keys of a collection whose private data is not the data of the hashes.
-/

namespace FabricSequencer

open StateCall TxSimulator SortedMap List RWSetBuilder Scan

namespace RWSetBuilder

theorem getOrCreate_addToRangeQuerySet (b : RWSetBuilder) (ns : GoString)
    (rqi : RangeQueryInfo) (other : GoString) :
    (b.addToRangeQuerySet ns rqi).getOrCreateNsPubRwBuilder other =
      if other = ns ∧ ¬ (b.getOrCreateNsPubRwBuilder ns).rangeQueries.any
          (sameRangeQueryKey rqi) = true then
        { b.getOrCreateNsPubRwBuilder ns with
          rangeQueries := (b.getOrCreateNsPubRwBuilder ns).rangeQueries ++ [rqi] }
      else b.getOrCreateNsPubRwBuilder other := by
  unfold addToRangeQuerySet
  rw [getOrCreate_changeNs]
  by_cases hns : other = ns
  · subst hns
    by_cases hn : (b.getOrCreateNsPubRwBuilder other).rangeQueries.any
        (sameRangeQueryKey rqi) = true
    · simp [hn]
    · simp [hn]
  · simp [hns]

theorem sameRangeQueryKey_iff {first b : RangeQueryInfo} :
    sameRangeQueryKey first b = true ↔
      first.startKey = b.startKey ∧ first.endKey = b.endKey ∧
        first.itrExhausted = b.itrExhausted := by
  simp [sameRangeQueryKey, and_assoc]

/-- What the loop of `addRangeQueryInfo` leaves in the builder. -/
structure AddsQueries (hashFunc : Bytes → Bytes) (itrs : List ResultsItr)
    (b after : RWSetBuilder) : Prop where
  readMap : ∀ ns, (after.getOrCreateNsPubRwBuilder ns).readMap =
    (b.getOrCreateNsPubRwBuilder ns).readMap
  hashedRead : after.hashedRead = b.hashedRead
  kept : ∀ ns rqi, rqi ∈ (b.getOrCreateNsPubRwBuilder ns).rangeQueries →
    rqi ∈ (after.getOrCreateNsPubRwBuilder ns).rangeQueries
  source : ∀ ns rqi, rqi ∈ (after.getOrCreateNsPubRwBuilder ns).rangeQueries →
    rqi ∈ (b.getOrCreateNsPubRwBuilder ns).rangeQueries ∨
      ∃ itr ∈ itrs, itr.ns = ns ∧ rqi = itr.finalInfo hashFunc
  covered : ∀ itr ∈ itrs,
    ∃ rqi ∈ (after.getOrCreateNsPubRwBuilder itr.ns).rangeQueries,
      sameRangeQueryKey (itr.finalInfo hashFunc) rqi = true

theorem addsQueries_singleton (hash : Bytes → Bytes) (b : RWSetBuilder) (itr : ResultsItr) :
    AddsQueries hash [itr] b (b.addToRangeQuerySet itr.ns (itr.finalInfo hash)) := by
  have hb := getOrCreate_addToRangeQuerySet b itr.ns (itr.finalInfo hash)
  refine ⟨?_, ?_, ?_, ?_, ?_⟩
  · intro ns
    rw [hb]
    split_ifs with hn
    · rw [hn.1]
    · rfl
  · funext ns coll key
    unfold hashedRead
    rw [hb]
    split_ifs with hn
    · rw [hn.1]
      rfl
    · rfl
  · intro _ _ hm
    rw [hb]
    split_ifs with hn
    · rw [hn.1] at hm
      exact mem_append_left _ hm
    · exact hm
  · intro _ _ hm
    rw [hb] at hm
    split_ifs at hm with hn
    · rcases mem_append.mp hm with hold | ha
      · rw [hn.1]
        exact .inl hold
      · exact .inr ⟨itr, mem_singleton_self itr, hn.1.symm, mem_singleton.mp ha⟩
    · exact .inl hm
  intro _ ho
  rw [mem_singleton.mp ho, hb]
  split_ifs with hn
  · exact ⟨itr.finalInfo hash, by simp, sameRangeQueryKey_iff.mpr ⟨rfl, rfl, rfl⟩⟩
  have hy : (b.getOrCreateNsPubRwBuilder itr.ns).rangeQueries.any
      (sameRangeQueryKey (itr.finalInfo hash)) = true := by
    by_contra hno
    exact hn ⟨rfl, hno⟩
  obtain ⟨rqi, hm, heq⟩ := any_eq_true.mp hy
  exact ⟨rqi, hm, heq⟩

variable {hash : Bytes → Bytes}

theorem AddsQueries.cons {itr : ResultsItr} {itrs : List ResultsItr} {b md post : RWSetBuilder}
    (hf : AddsQueries hash [itr] b md) (hrs : AddsQueries hash itrs md post) :
    AddsQueries hash (itr :: itrs) b post where
  readMap ns := (hrs.readMap ns).trans (hf.readMap ns)
  hashedRead := hrs.hashedRead.trans hf.hashedRead
  kept ns rqi hmem := hrs.kept ns rqi (hf.kept ns rqi hmem)
  source := by
    intro ns rqi hmem
    rcases hrs.source ns rqi hmem with hmid | ⟨other, ho, hin⟩
    · rcases hf.source ns rqi hmid with hold | ⟨_, ho, hin⟩
      · exact .inl hold
      · rw [mem_singleton.mp ho] at hin
        exact .inr ⟨itr, mem_cons_self, hin⟩
    · exact .inr ⟨other, mem_cons_of_mem itr ho, hin⟩
  covered := by
    intro other ho
    rcases mem_cons.mp ho with rfl | hlat
    · obtain ⟨rqi, hmem, heq⟩ := hf.covered other (mem_singleton_self other)
      exact ⟨rqi, hrs.kept other.ns rqi hmem, heq⟩
    · exact hrs.covered other hlat

theorem addsQueries_foldl (hash : Bytes → Bytes) (itrs : List ResultsItr) (b : RWSetBuilder) :
    AddsQueries hash itrs b (itrs.foldl (fun b itr =>
        b.addToRangeQuerySet itr.ns (itr.finalInfo hash)) b) := by
  induction itrs generalizing b with
  | nil =>
    exact ⟨fun _ => rfl, rfl, fun _ _ hm => hm, fun _ _ hm => .inl hm, fun _ hm => by cases hm⟩
  | cons itr _ ih => exact (addsQueries_singleton hash b itr).cons (ih _)

structure BuilderPasses (hashFunc : Bytes → Bytes) (db : DB)
    (b : RWSetBuilder) (ns : GoString) : Prop where
  reads : ∀ key kvRead,
    (b.getOrCreateNsPubRwBuilder ns).readMap.get key = some kvRead →
      db.getVersion (.pub ns) kvRead.key = kvRead.version
  rangeQueries : ∀ rqi ∈ (b.getOrCreateNsPubRwBuilder ns).rangeQueries,
    validateRangeQuery hashFunc db ns rqi newPubAndHashUpdates.publicUpdates = .ok true
  hashedReads : ∀ coll key kvReadHash,
    b.hashedRead ns coll key = some kvReadHash →
      db.getKeyHashVersion ns coll kvReadHash.keyHash = kvReadHash.version

theorem mem_valuesBySortedKeys {V : Type} {m : SortedMap GoString V} {value : V} :
    value ∈ valuesBySortedKeys m ↔ ∃ key, m.get key = some value := by
  simp only [valuesBySortedKeys, mem_map, Prod.exists, exists_eq_right, get_eq_some_iff]

variable {b : RWSetBuilder}

theorem hashedRead_eq_some_iff {ns coll key : GoString} {kv : KVReadHash} :
    b.hashedRead ns coll key = some kv ↔
      ∃ collBuilder,
        (b.getOrCreateNsPubRwBuilder ns).collHashRwBuilder.get coll = some collBuilder ∧
          collBuilder.readMap.get key = some kv := by
  unfold hashedRead NsPubRwBuilder.getOrCreateCollHashedRwBuilder
  cases (b.getOrCreateNsPubRwBuilder ns).collHashRwBuilder.get coll with
  | none => simp [newCollHashRwBuilder]
  | some => simp

variable {db : DB}

theorem nsPasses_build_iff {ns : GoString} :
    NsPasses hash db newPubAndHashUpdates ((b.getOrCreateNsPubRwBuilder ns).build ns) ↔
      BuilderPasses hash db b ns := by
  constructor
  · intro hps
    refine ⟨?_, hps.rangeQueries, ?_⟩
    · intro key kvRead hg
      exact (hps.reads kvRead (mem_valuesBySortedKeys.mpr ⟨key, hg⟩)).2
    intro coll key kv hg
    obtain ⟨collBuilder, hco, hrd⟩ := hashedRead_eq_some_iff.mp hg
    exact (hps.hashedReads (collBuilder.build coll)
      (mem_map.mpr ⟨(coll, collBuilder), get_eq_some_iff.mp hco, rfl⟩)
      kv (mem_valuesBySortedKeys.mpr ⟨key, hrd⟩)).2
  · intro hps
    refine ⟨?_, hps.rangeQueries, ?_⟩
    · intro kvRead hm
      obtain ⟨key, hg⟩ := mem_valuesBySortedKeys.mp hm
      exact ⟨rfl, hps.reads key kvRead hg⟩
    intro _ hco kv hm
    obtain ⟨⟨nm, collBuilder⟩, he, rfl⟩ := mem_map.mp hco
    obtain ⟨key, hg⟩ := mem_valuesBySortedKeys.mp hm
    exact ⟨rfl, hps.hashedReads nm key kv
      (hashedRead_eq_some_iff.mpr ⟨collBuilder, get_eq_some_iff.mpr he, hg⟩)⟩

theorem builderPasses_of_missing {ns : GoString} (hms : b.pubRwBuilderMap.get ns = none) :
    BuilderPasses hash db b ns := by
  have hn : b.getOrCreateNsPubRwBuilder ns = newNsPubRwBuilder := by
    rw [getOrCreateNsPubRwBuilder, hms]
    rfl
  refine ⟨?_, ?_, ?_⟩
  · intro _ _ hg
    rw [hn] at hg
    cases hg
  · intro _ hm
    rw [hn] at hm
    cases hm
  · intro _ _ _ hg
    obtain ⟨_, hco, -⟩ := hashedRead_eq_some_iff.mp hg
    rw [hn] at hco
    cases hco

theorem validateTx_build_iff :
    validateTx hash db b.getTxReadWriteSet newPubAndHashUpdates = .ok .valid ↔
      ∀ ns, BuilderPasses hash db b ns := by
  rw [validateTx, validateNsRwSets_valid_iff]
  have hb : ∀ {ns : GoString} {builder : NsPubRwBuilder},
      b.pubRwBuilderMap.get ns = some builder → b.getOrCreateNsPubRwBuilder ns = builder := by
    intro _ _ hg
    rw [getOrCreateNsPubRwBuilder, hg]
    rfl
  constructor
  · intro hps ns
    cases hg : b.pubRwBuilderMap.get ns with
    | none => exact builderPasses_of_missing hg
    | some builder =>
      rw [← nsPasses_build_iff, hb hg]
      exact hps _ (mem_map.mpr ⟨(ns, builder), get_eq_some_iff.mp hg, rfl⟩)
  · intro hps _ hm
    obtain ⟨⟨ns, _⟩, hent, rfl⟩ := mem_map.mp hm
    rw [← hb (get_eq_some_iff.mpr hent)]
    exact nsPasses_build_iff.mpr (hps ns)

end RWSetBuilder

theorem openEnded_finalInfo_iff {db : DB} {hash : Bytes → Bytes}
    {itr : ResultsItr} {ns : GoString} :
    OpenEnded db ns (itr.finalInfo hash) ↔ OpenEnded db ns itr.rangeQueryInfo := by
  unfold OpenEnded
  rw [finalInfo_startKey, finalInfo_endKey, finalInfo_itrExhausted]

theorem openEnded_iff_of_sameRangeQueryKey {db : DB} {ns : GoString}
    {first second : RangeQueryInfo} (heq : RWSetBuilder.sameRangeQueryKey first second = true) :
    OpenEnded db ns first ↔ OpenEnded db ns second := by
  obtain ⟨hsr, hn, hx⟩ := sameRangeQueryKey_iff.mp heq
  unfold OpenEnded
  rw [hsr, hn, hx]

theorem recordedVersion_eq_hashVersion {env : SimEnv} {ns coll key : GoString} {op : SimOp}
    (hml : ∀ ns' co' ks,
      op = .getPrivateDataMultipleKeys ns' co' ks →
        pvtVersion env ns coll key = hashVersion env ns coll key) :
    op.recordedVersion env ns coll key = hashVersion env ns coll key := by
  cases op
  case getPrivateDataMultipleKeys ns' co' ks =>
    exact hml ns' co' ks rfl
  all_goals rfl

section Results

variable (env : SimEnv) (ops : List SimOp)

theorem addsQueries_simulate :
    RWSetBuilder.AddsQueries env.hashFunc (itrsOf env (scansOf ops)) (simulate env ops).rwsetBuilder
      (addRangeQueryInfo env (simulate env ops)) := by
  rw [← (simulate_spec env ops).itrs]
  exact addsQueries_foldl env.hashFunc _ _

theorem mem_rangeQueries_simulate {ns : GoString} {rqi : RangeQueryInfo}
    (hm : rqi ∈ ((addRangeQueryInfo env
      (simulate env ops)).getOrCreateNsPubRwBuilder ns).rangeQueries) :
    ∃ scan ∈ scansOf ops, scan.ns = ns ∧
      rqi = (scan.itr env.db env.hashFunc).finalInfo env.hashFunc := by
  rcases (addsQueries_simulate env ops).source ns rqi hm with hl | ⟨itr, ht, hns, hin⟩
  · rw [(simulate_spec env ops).sound.builder.rangeQueries] at hl
    cases hl
  · obtain ⟨scan, hsc, rfl⟩ := mem_map.mp ht
    exact ⟨scan, hsc, hns, hin⟩

theorem rangeQueries_pass_iff :
    (∀ ns, ∀ rqi ∈ ((addRangeQueryInfo env
        (simulate env ops)).getOrCreateNsPubRwBuilder ns).rangeQueries,
      validateRangeQuery env.hashFunc env.db ns rqi newPubAndHashUpdates.publicUpdates = .ok true) ↔
      ∀ scan ∈ scansOf ops, ¬ LeftOpen env.db scan := by
  constructor
  · intro hps scan hsc
    obtain ⟨_, hr, heq⟩ := (addsQueries_simulate env ops).covered
      (scan.itr env.db env.hashFunc) (mem_map_of_mem hsc)
    obtain ⟨_, -, hns, rfl⟩ := mem_rangeQueries_simulate env ops hr
    have hok := hps _ _ hr
    rw [← hns, validateRangeQuery_iff, hns] at hok
    rw [← openEnded_finalInfo_iff,
      ← openEnded_iff_of_sameRangeQueryKey heq, openEnded_finalInfo_iff] at hok
    rw [← openEnded_iff_leftOpen env.db env.hashFunc]
    exact hok
  · intro hc _ _ hm
    obtain ⟨scan, hsc, rfl, rfl⟩ := mem_rangeQueries_simulate env ops hm
    rw [validateRangeQuery_iff, openEnded_iff_leftOpen]
    exact hc scan hsc

theorem hashedReads_pass_iff :
    (∀ ns coll key kv,
      (addRangeQueryInfo env (simulate env ops)).hashedRead ns coll key = some kv →
        env.db.getKeyHashVersion ns coll kv.keyHash = kv.version) ↔
      ∀ ns coll key ns' co' ks,
        lastHashedRead env ops ns coll key = some (.getPrivateDataMultipleKeys ns' co' ks) →
          pvtVersion env ns coll key = hashVersion env ns coll key := by
  rw [(addsQueries_simulate env ops).hashedRead]
  simp only [(simulate_spec env ops).hashedRead, Option.map_eq_some_iff]
  constructor
  · intro hps ns coll key _ _ _ hla
    exact (hps ns coll key _ ⟨_, hla, rfl⟩).symm
  rintro hversions ns coll key _ ⟨_, hla, rfl⟩
  apply Eq.symm
  apply recordedVersion_eq_hashVersion
  rintro ns' co' ks rfl
  exact hversions ns coll key ns' co' ks hla

/-- The results of a simulation are valid on the state they were made on
exactly when no range scan was left open and the last read of each private key
that was among several keys had the version of the key's hash. -/
theorem simulation_valid_iff :
    validateTx env.hashFunc env.db (getTxSimulationResults env (simulate env ops))
        newPubAndHashUpdates = .ok .valid ↔
      (∀ scan ∈ scansOf ops, ¬ Scan.LeftOpen env.db scan) ∧
        ∀ ns coll key ns' coll' keys,
          lastHashedRead env ops ns coll key = some (.getPrivateDataMultipleKeys ns' coll' keys) →
            pvtVersion env ns coll key = hashVersion env ns coll key := by
  rw [getTxSimulationResults, validateTx_build_iff, ← rangeQueries_pass_iff, ← hashedReads_pass_iff]
  constructor
  · intro hps
    exact ⟨fun ns => (hps ns).rangeQueries, fun ns => (hps ns).hashedReads⟩
  rintro ⟨hqrs, hhsh⟩ ns
  refine ⟨?_, hqrs ns, hhsh ns⟩
  intro key kvRead hget
  rw [(addsQueries_simulate env ops).readMap] at hget
  rw [(simulate_spec env ops).sound.builder.reads ns key kvRead hget]
  rfl

end Results

def singleKeyDB : DB where
  data space :=
    match space with
    | .pub _ => SortedMap.empty.insert (ascii "k") ⟨[1], none, ⟨1, 0⟩⟩
    | _ => SortedMap.empty
  metadataHint _ := false
  hint_covers := by
    intro space key vv hspace hget hmetadata
    cases space with
    | pub =>
      rw [get_insert] at hget
      split_ifs at hget
      · exact absurd (by rw [← Option.some.inj hget]) hmetadata
      · simp at hget
    | hashed | pvt => simp at hget

def singleKeyEnv : SimEnv where
  txid := "tx"
  db := singleKeyDB
  hashFunc := id
  computeHash := id
  deserialize := fun _ => .ok SortedMap.empty
  lookups := fun _ => []
  allCollectionsConfigPkg := fun _ => .ok none

theorem unadvanced_scan_conflicts :
    validateTx singleKeyEnv.hashFunc singleKeyEnv.db
        (getTxSimulationResults singleKeyEnv (simulate singleKeyEnv
          [.getStateRangeScanIterator (ascii "cc") [] []]))
        newPubAndHashUpdates = .ok .phantomReadConflict := by
  rfl

end FabricSequencer
