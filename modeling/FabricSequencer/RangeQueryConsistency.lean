import FabricSequencer.TransactionValidation
import FabricSequencer.TxSimulation

/-!
# A summary validates against the results it was made of

While results are added, the top level of the Merkle tree only grows or is
replaced by a higher one.  So every partial tree that the validator looks at
has hashes that the final summary begins with, or is still below its level.
-/

namespace FabricSequencer

open RangeQueryResultsHelper VersionedKV Bool

namespace MerkleTree

structure Extends (m grown : MerkleTree) : Prop where
  maxDegree_eq : grown.maxDegree = m.maxDegree
  maxLevel_le : m.maxLevel ≤ grown.maxLevel
  hashes_begin : grown.maxLevel = m.maxLevel → m.tree m.maxLevel <+: grown.tree m.maxLevel

theorem Extends.refl (m : MerkleTree) : Extends m m := ⟨rfl, le_rfl, fun _ => List.prefix_rfl⟩

theorem Extends.trans {first b third : MerkleTree} (hf : Extends first b) (hs : Extends b third) :
    Extends first third where
  maxDegree_eq := hs.maxDegree_eq.trans hf.maxDegree_eq
  maxLevel_le := hf.maxLevel_le.trans hs.maxLevel_le
  hashes_begin := by
    intro hl
    have hm : b.maxLevel = first.maxLevel := le_antisymm (hl ▸ hs.maxLevel_le) hf.maxLevel_le
    have hla := hs.hashes_begin (hl.trans hm.symm)
    rw [hm] at hla
    exact (hf.hashes_begin hm).trans hla

theorem extends_append (m : MerkleTree) (lv : ℕ) (hash : Bytes) : Extends m (m.append lv hash) where
  maxDegree_eq := rfl
  maxLevel_le := le_rfl
  hashes_begin := by
    intro _
    by_cases hl : m.maxLevel = lv
    · simp [append, ← hl]
    · simp [append, hl]

variable {m : MerkleTree}

theorem extends_delete {lv : ℕ} (hl : lv < m.maxLevel) : Extends m (m.delete lv) where
  maxDegree_eq := rfl
  maxLevel_le := le_rfl
  hashes_begin := by
    intro _
    simp [delete, hl.ne']

theorem extends_of_higher {m grown : MerkleTree} (hd : grown.maxDegree = m.maxDegree)
    (hl : m.maxLevel < grown.maxLevel) : Extends m grown :=
  ⟨hd, hl.le, fun heq => absurd heq hl.ne'⟩

variable (hashFunc hash : Bytes → Bytes)

theorem complete_extends (fuel : ℕ) {lvl : ℕ} (hl : lvl ≤ m.maxLevel) :
    Extends m (complete hash fuel lvl m) := by
  induction fuel generalizing lvl m with
  | zero => exact .refl m
  | succ _ ih =>
    simp only [complete]
    split_ifs
    · exact .refl m
    rcases hl.lt_or_eq with hlt | _
    · have hr := (extends_delete hlt).trans
        (extends_append (m.delete lvl) (lvl + 1) (computeCombinedHash hash (m.tree lvl)))
      refine Extends.trans ?_ (ih (le_max_right _ _))
      refine ⟨rfl, le_max_left _ _, fun _ => hr.hashes_begin rfl⟩
    · have hle : m.maxLevel < lvl + 1 := by omega
      refine Extends.trans ?_ (ih (le_max_right _ _))
      exact extends_of_higher rfl (lt_of_lt_of_le hle (le_max_right _ _))

theorem update_extends (hl : leafLevel ≤ m.maxLevel) (hash : Bytes) :
    Extends m (m.update hashFunc hash) :=
  (extends_append m leafLevel hash).trans (complete_extends hashFunc _ hl)

theorem liftLevels_extends (count lvl : ℕ) (hl : lvl + count ≤ m.maxLevel) :
    Extends m (liftLevels hashFunc count lvl m) := by
  induction count generalizing lvl m with
  | zero => exact .refl m
  | succ count ih =>
    have hmv : ∀ hash : Bytes, Extends m (liftLevels hashFunc count (lvl + 1)
        ((m.delete lvl).append (lvl + 1) hash)) := by
      intro hash
      have hlt : lvl < m.maxLevel := by omega
      refine ((extends_delete hlt).trans (extends_append _ (lvl + 1) hash)).trans (ih _ ?_)
      change lvl + 1 + count ≤ m.maxLevel
      omega
    simp only [liftLevels]
    split
    · exact ih (lvl + 1) (by omega)
    · exact hmv _
    · exact hmv _

theorem done_extends (hl : leafLevel ≤ m.maxLevel) : Extends m (m.done hash) := by
  have hf : Extends m (liftLevels hash (m.maxLevel - leafLevel) leafLevel m) :=
    liftLevels_extends hash _ leafLevel (by omega)
  unfold done
  dsimp only
  split_ifs
  · exact hf.trans (extends_of_higher rfl (Nat.lt_succ_self _))
  · exact hf

end MerkleTree

namespace RangeQueryResultsHelper

variable (hashFunc hash : Bytes → Bytes)

def addResults (helper : RangeQueryResultsHelper)
    (kvReads : List KVRead) : RangeQueryResultsHelper :=
  kvReads.foldl (addResult hashFunc) helper

variable {helper : RangeQueryResultsHelper}

theorem addResult_extends (hash : Bytes → Bytes) (hl : leafLevel ≤ helper.mt.maxLevel)
    (kvRead : KVRead) : helper.mt.Extends (helper.addResult hash kvRead).mt := by
  unfold addResult
  dsimp only
  split_ifs
  · exact MerkleTree.update_extends hash hl _
  · exact .refl _

theorem addResult_hashingEnabled (helper : RangeQueryResultsHelper) (kvRead : KVRead) :
    (helper.addResult hash kvRead).hashingEnabled = helper.hashingEnabled := by
  unfold addResult
  dsimp only
  split_ifs <;> rfl

theorem addResults_hashingEnabled (krs : List KVRead) (helper : RangeQueryResultsHelper) :
    (helper.addResults hash krs).hashingEnabled = helper.hashingEnabled := by
  induction krs generalizing helper with
  | nil => rfl
  | cons kvRead _ ih => exact (ih _).trans (addResult_hashingEnabled hash helper kvRead)

theorem addResults_extends (hash : Bytes → Bytes) (krs : List KVRead)
    (hl : leafLevel ≤ helper.mt.maxLevel) : helper.mt.Extends (helper.addResults hash krs).mt := by
  induction krs generalizing helper with
  | nil => exact .refl _
  | cons kvRead _ ih =>
    have ha := addResult_extends hash hl kvRead
    exact ha.trans (ih (hl.trans ha.maxLevel_le))

theorem done_summary_extends {hash : Bytes → Bytes} {summary : QueryReadsMerkleSummary}
    (hl : leafLevel ≤ helper.mt.maxLevel) (hdo : (helper.done hash).2 = some summary) :
    ∃ fn, helper.mt.Extends fn ∧ fn.getSummery = summary := by
  unfold done at hdo
  split_ifs at hdo with hnil hpend
  · refine ⟨_, ?_, Option.some.inj hdo⟩
    have hpc := MerkleTree.update_extends hash hl (hash (serializeKVReads helper.pendingResults))
    exact hpc.trans (MerkleTree.done_extends hash (hl.trans hpc.maxLevel_le))
  · exact ⟨_, MerkleTree.done_extends hash hl, Option.some.inj hdo⟩

end RangeQueryResultsHelper

def VersionedKV.kvRead (result : VersionedKV) : KVRead := newKVRead result.key (some result.version)

theorem validateRawReads_self (res : List VersionedKV) :
    validateRawReads (res.map kvRead) res = .ok true := by
  induction res with
  | nil => rfl
  | cons _ _ ih => simp [validateRawReads, kvRead, newKVRead, ih]

variable {hashFunc hash : Bytes → Bytes}

theorem compareHashes_cons (inM : QueryReadsMerkleSummary) {helper ad : RangeQueryResultsHelper}
    (mtd : ℕ) {r : VersionedKV} (res : List VersionedKV)
    (hd : helper.addResult hash r.kvRead = ad) (hl : ad.mt.maxLevel ≤ inM.maxLevel)
    (hb : ad.mt.maxLevel = inM.maxLevel →
      ad.mt.tree ad.mt.maxLevel <+: inM.maxLevelHashes ∧ mtd ≤ (ad.mt.tree ad.mt.maxLevel).length) :
    ∃ next, compareHashes hash inM helper mtd (r :: res) = compareHashes hash inM ad next res ∧
      (ad.mt.maxLevel < inM.maxLevel → next = mtd) ∧
      (ad.mt.maxLevel = inM.maxLevel →
        next ≤ (ad.mt.tree ad.mt.maxLevel).length) := by
  have hk : newKVRead r.key (some r.version) = r.kvRead := rfl
  simp only [compareHashes, hk, hd, getMerkleSummary, MerkleTree.getSummery]
  rcases hl.lt_or_eq with hbelow | hat
  · refine ⟨mtd, if_pos hbelow, fun _ => rfl, ?_⟩
    intro heq
    exact absurd heq hbelow.ne
  obtain ⟨hh, hm⟩ := hb hat
  rw [if_neg hat.not_lt]
  by_cases ha : mtd = (ad.mt.tree ad.mt.maxLevel).length
  · exact ⟨mtd, if_pos ha, fun hle => absurd hat hle.ne, fun _ => hm⟩
  have hle : mtd < (ad.mt.tree ad.mt.maxLevel).length := by
    omega
  have hhs : (ad.mt.tree ad.mt.maxLevel)[mtd]? = some (ad.mt.tree ad.mt.maxLevel)[mtd] :=
    List.getElem?_eq_getElem hle
  have hn : inM.maxLevelHashes[mtd]? = some (ad.mt.tree ad.mt.maxLevel)[mtd] := by
    obtain ⟨_, hrs⟩ := hh
    rw [← hrs, List.getElem?_append_left hle, hhs]
  refine ⟨mtd + 1, ?_, fun hlt => absurd hat hlt.ne, fun _ => hle⟩
  rw [if_neg ha, if_neg (not_lt.mpr hh.length_le), hhs, hn]
  simp

variable {helper : RangeQueryResultsHelper} {inM : QueryReadsMerkleSummary}

theorem compareHashes_self (res : List VersionedKV) {mtd : ℕ} (hl : leafLevel ≤ helper.mt.maxLevel)
    (hdo : ((helper.addResults hash (res.map kvRead)).done hash).2 = some inM)
    (hlt : helper.mt.maxLevel < inM.maxLevel → mtd = 0)
    (hat : helper.mt.maxLevel = inM.maxLevel → mtd ≤ (helper.mt.tree helper.mt.maxLevel).length) :
    compareHashes hash inM helper mtd res = .ok true := by
  induction res generalizing helper mtd with
  | nil =>
    have hs : (helper.done hash).2 = some inM := hdo
    simp [compareHashes, hs, merkleSummariesEqual]
  | cons r res ih =>
    have ha := addResult_extends hash hl r.kvRead
    have had := hl.trans ha.maxLevel_le
    have hall := addResults_extends hash (res.map kvRead) had
    obtain ⟨fn, hfn, hs⟩ := done_summary_extends (had.trans hall.maxLevel_le) hdo
    have hx := hall.trans hfn
    subst hs
    have hb : (helper.addResult hash r.kvRead).mt.maxLevel = fn.getSummery.maxLevel →
        (helper.addResult hash r.kvRead).mt.tree (helper.addResult hash r.kvRead).mt.maxLevel <+:
            fn.getSummery.maxLevelHashes ∧
          mtd ≤ ((helper.addResult hash r.kvRead).mt.tree
            (helper.addResult hash r.kvRead).mt.maxLevel).length := by
      intro heq
      refine ⟨heq ▸ hx.hashes_begin heq.symm, ?_⟩
      rcases ha.maxLevel_le.lt_or_eq with hle | hequal
      · rw [hlt (heq ▸ hle)]
        exact Nat.zero_le _
      have hn := (ha.hashes_begin hequal.symm).length_le
      rw [hequal] at hn
      have hc := hat (hequal.trans heq)
      rw [hequal] at hc
      exact hc.trans hn
    obtain ⟨_, hstep, hnx, ht⟩ := compareHashes_cons fn.getSummery mtd res rfl hx.maxLevel_le hb
    rw [hstep]
    apply ih had hdo
    · intro hle
      rw [hnx hle]
      exact hlt (lt_of_le_of_lt ha.maxLevel_le hle)
    · exact ht

/-! ## From the recorder to the validator -/

namespace MerkleTree

theorem Extends.isEmpty {m grown : MerkleTree} (hx : Extends m grown)
    (hl : leafLevel ≤ m.maxLevel) (hn : grown.isEmpty = true) : m.isEmpty = true := by
  rw [MerkleTree.isEmpty, and_eq_true, beq_iff_eq, List.isEmpty_iff] at hn ⊢
  have hlf : m.maxLevel = 1 := le_antisymm (hn.1 ▸ hx.maxLevel_le) hl
  have hb := hx.hashes_begin (hn.1.trans hlf.symm)
  rw [hn.1] at hn
  rw [hlf, hn.2] at hb
  exact ⟨hlf, hlf ▸ List.prefix_nil.mp hb⟩

theorem update_isEmpty (hashFunc : Bytes → Bytes) {m : MerkleTree}
    (hl : leafLevel ≤ m.maxLevel) (hash : Bytes) : (m.update hashFunc hash).isEmpty = false := by
  by_contra hempty
  have hx := complete_extends hashFunc (m.maxLevel + 2) (m := m.append leafLevel hash) hl
  have hap : (m.append leafLevel hash).isEmpty = true :=
    hx.isEmpty hl (eq_true_of_not_eq_false hempty)
  rw [isEmpty, and_eq_true, beq_iff_eq, List.isEmpty_iff] at hap
  obtain ⟨hone, hn⟩ := hap
  rw [hone] at hn
  simp [append, leafLevel] at hn

end MerkleTree

namespace RangeQueryResultsHelper

theorem pendingResults_addResults {hash : Bytes → Bytes}
    (kvReads : List KVRead) {helper : RangeQueryResultsHelper} (hl : leafLevel ≤ helper.mt.maxLevel)
    (hr : helper.hashingEnabled = false ∨ (helper.addResults hash kvReads).mt.isEmpty = true) :
    (helper.addResults hash kvReads).pendingResults = helper.pendingResults ++ kvReads := by
  induction kvReads generalizing helper with
  | nil => simp [addResults]
  | cons kvRead kvReads ih =>
    have hd := addResult_extends hash hl kvRead
    have had := hl.trans hd.maxLevel_le
    have hrs : (helper.addResult hash kvRead).hashingEnabled = false ∨
        ((helper.addResult hash kvRead).addResults hash kvReads).mt.isEmpty = true := by
      rw [addResult_hashingEnabled]
      exact hr
    have hn : helper.hashingEnabled = false ∨ (helper.addResult hash kvRead).mt.isEmpty = true := by
      rcases hr with hdisabled | hfinal
      · exact .inl hdisabled
      · exact .inr ((addResults_extends hash kvReads had).isEmpty had hfinal)
    have hpn : (helper.addResult hash kvRead).pendingResults =
        helper.pendingResults ++ [kvRead] := by
      unfold addResult at hn ⊢
      dsimp only at hn ⊢
      split_ifs at hn ⊢ with hfull
      · exfalso
        rcases hn with hdisabled | hnone
        · exact absurd hfull.1 (by simp [hdisabled])
        have hsm := MerkleTree.update_isEmpty hash hl
          (hash (serializeKVReads (helper.pendingResults ++ [kvRead])))
        exact absurd hnone (by
          rw [not_eq_true]
          exact hsm)
      · rfl
    have ha := ih had hrs
    rw [hpn, List.append_assoc] at ha
    exact ha

end RangeQueryResultsHelper

variable {maxDegree : ℕ}

theorem newRangeQueryResultsHelper_spec {enableHashing : Bool}
    (hn : newRangeQueryResultsHelper enableHashing maxDegree = .ok helper) :
    helper = { pendingResults := [], mt := emptyMerkleTree maxDegree
               maxDegree := maxDegree, hashingEnabled := enableHashing } := by
  unfold newRangeQueryResultsHelper newMerkleTree at hn
  cases enableHashing with
  | false => exact (Except.ok.inj hn).symm
  | true =>
    by_cases hd : maxDegree < 2
    · simp [hd, bind, Except.bind] at hn
    · simp only [hd] at hn
      exact (Except.ok.inj hn).symm

theorem validateHashes_self
    (hn : newRangeQueryResultsHelper true maxDegree = .ok helper) (res : List VersionedKV)
    (hdo : ((helper.addResults hash (res.map kvRead)).done hash).2 = some inM) :
    validateHashes hash inM res = .ok true := by
  have hh := newRangeQueryResultsHelper_spec hn
  have hl : leafLevel ≤ helper.mt.maxLevel := by
    rw [hh]
    exact le_rfl
  have ha := addResults_extends hash (res.map kvRead) hl
  obtain ⟨_, hfn, hs⟩ := done_summary_extends (hl.trans ha.maxLevel_le) hdo
  have hd : inM.maxDegree = maxDegree := by
    rw [← hs]
    exact (ha.trans hfn).maxDegree_eq.trans (by rw [hh]; rfl)
  have hsr : compareHashes hash inM helper 0 res = .ok true :=
    compareHashes_self res hl hdo (fun _ => rfl) (fun _ => Nat.zero_le _)
  unfold validateHashes
  rw [hd, hn]
  exact hsr

theorem validateResults_self {enableHashing : Bool} {itr : ResultsItr}
    (hn : newRangeQueryResultsHelper enableHashing maxDegree = .ok helper)
    (res : List VersionedKV) (hun : itr.rangeQueryInfo.readsInfo = .unset)
    (hd : itr.rangeQueryResultsHelper = helper.addResults hash (res.map kvRead)) :
    validateResults hash (itr.finalInfo hash).readsInfo res = .ok true := by
  have hh := newRangeQueryResultsHelper_spec hn
  have hl : leafLevel ≤ helper.mt.maxLevel := by
    rw [hh]
    exact le_rfl
  have hb : helper.hashingEnabled = enableHashing := by rw [hh]
  have hpn : helper.pendingResults = [] := by rw [hh]
  unfold ResultsItr.finalInfo
  rw [hd]
  rcases hdo : (helper.addResults hash (res.map kvRead)).done hash with ⟨pd, summary⟩
  cases summary with
  | some =>
    have hs : enableHashing = true := by
      rw [← hb]
      by_contra hdisabled
      rw [done, if_pos] at hdo
      · cases hdo
      · simp [addResults_hashingEnabled, hdisabled]
    subst hs
    exact validateHashes_self hn res (by rw [hdo])
  | none =>
    have hrd : pd = res.map kvRead := by
      unfold done at hdo
      split_ifs at hdo with hr
      · rw [or_eq_true, not_eq_true', addResults_hashingEnabled] at hr
        have ha := pendingResults_addResults (res.map kvRead) hl hr
        rw [hpn, List.nil_append] at ha
        rw [← ha]
        exact (Prod.mk.inj hdo).1.symm
      all_goals simp at hdo
    have hr := validateRawReads_self res
    rw [← hrd] at hr
    cases pd with
    | nil => simpa [validateResults, hun, ReadsInfo.kvReads] using hr
    | cons => simpa [validateResults, ReadsInfo.kvReads] using hr

end FabricSequencer
