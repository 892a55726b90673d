import FabricSequencer.RangeQueryConsistency

/-!
# When validating a range query fails

A range query is validated against what a transaction claims to have read.  A
raw read without a version is dereferenced as soon as its key agrees, and a
summary can claim a degree that no tree may have.  A summary can also end below
the level that the tree reaches: the validator counts the hashes it has matched
at one level and uses the count as an index at the next.
-/

namespace FabricSequencer

/-! ## One step of the tree -/

namespace MerkleTree

variable (m : MerkleTree)

def topHashes : List Bytes := m.tree m.maxLevel

/-- No level holds more hashes than the degree, and none lies above the
topmost. -/
structure WellFormed : Prop where
  two_le : 2 ≤ m.maxDegree
  degree_lt : m.maxDegree + 1 < 2 ^ 32
  length_le : ∀ level, (m.tree level).length ≤ m.maxDegree
  above : ∀ level, m.maxLevel < level → m.tree level = []

inductive Grows (m grown : MerkleTree) : Prop
  | within (hlevel : grown.maxLevel = m.maxLevel)
      (hhashes : grown.topHashes = m.topHashes ∨ ∃ hash, grown.topHashes = m.topHashes ++ [hash])
  | above (hlevel : grown.maxLevel = m.maxLevel + 1) (hfull : m.topHashes.length = m.maxDegree)
      (hhash : ∃ hash, grown.topHashes = [hash])

theorem tree_append (level : ℕ) (hash : Bytes) (other : ℕ) :
    (m.append level hash).tree other =
      if other = level then m.tree level ++ [hash] else m.tree other :=
  Function.update_apply _ _ _ _

theorem tree_delete (level other : ℕ) :
    (m.delete level).tree other = if other = level then [] else m.tree other :=
  Function.update_apply _ _ _ _

theorem delete_append (level : ℕ) (hash : Bytes) :
    (m.append level hash).delete level = m.delete level := by
  simp [append, delete]

variable {m : MerkleTree}

theorem WellFormed.delete (hm : m.WellFormed) (level : ℕ) : (m.delete level).WellFormed where
  two_le := hm.two_le
  degree_lt := hm.degree_lt
  length_le := by
    intro other
    rw [tree_delete]
    split_ifs
    · exact Nat.zero_le _
    · exact hm.length_le other
  above := by
    intro other ho
    rw [tree_delete]
    split_ifs
    · rfl
    · exact hm.above other ho

variable {level : ℕ}

theorem WellFormed.append (hm : m.WellFormed) (hl : level ≤ m.maxLevel) (hash : Bytes)
    (hrm : (m.tree level).length < m.maxDegree) : (m.append level hash).WellFormed where
  two_le := hm.two_le
  degree_lt := hm.degree_lt
  length_le := by
    intro other
    rw [tree_append]
    split_ifs
    · rw [List.length_append]
      exact hrm
    · exact hm.length_le other
  above := by
    intro other ho
    change m.maxLevel < other at ho
    rw [tree_append, if_neg (by omega)]
    exact hm.above other ho

theorem grows_append (m : MerkleTree) (level : ℕ) (hash : Bytes) :
    Grows m (m.append level hash) := by
  refine .within rfl ?_
  change (m.append level hash).tree m.maxLevel = _ ∨
    ∃ hash', (m.append level hash).tree m.maxLevel = _
  rw [tree_append]
  split_ifs with hl
  · exact .inr ⟨hash, by rw [topHashes, hl]⟩
  · exact .inl rfl

def raised (m : MerkleTree) (hash : Bytes) : MerkleTree :=
  { (m.delete m.maxLevel).append (m.maxLevel + 1) hash with
    maxLevel := m.maxLevel + 1 }

theorem tree_raised (hm : m.WellFormed) (hash : Bytes) (level : ℕ) :
    (m.raised hash).tree level =
      if level = m.maxLevel + 1 then [hash]
      else if level = m.maxLevel then [] else m.tree level := by
  change ((m.delete m.maxLevel).append (m.maxLevel + 1) hash).tree level = _
  rw [tree_append, tree_delete, tree_delete,
    if_neg (Nat.succ_ne_self m.maxLevel), hm.above _ (Nat.lt_succ_self _)]
  rfl

theorem WellFormed.raised (hm : m.WellFormed) (hash : Bytes) : (m.raised hash).WellFormed where
  two_le := hm.two_le
  degree_lt := hm.degree_lt
  length_le := by
    intro level
    have ht := hm.two_le
    change ((m.raised hash).tree level).length ≤ m.maxDegree
    rw [tree_raised hm]
    split_ifs
    · exact (by omega : 1 ≤ m.maxDegree)
    · exact Nat.zero_le _
    · exact hm.length_le level
  above := by
    intro level hl
    change m.maxLevel + 1 < level at hl
    rw [tree_raised hm, if_neg (by omega), if_neg (by omega)]
    exact hm.above level (by omega)

theorem grows_raised (hm : m.WellFormed) (hash : Bytes) (hfl : m.topHashes.length = m.maxDegree) :
    Grows m (m.raised hash) := by
  refine .above rfl hfl ⟨hash, ?_⟩
  change (m.raised hash).tree (m.maxLevel + 1) = [hash]
  rw [tree_raised hm, if_pos rfl]

theorem Grows.of_delete {grown : MerkleTree}
    (hl : level < m.maxLevel) (hgr : Grows (m.delete level) grown) :
    Grows m grown := by
  have ht : (m.delete level).topHashes = m.topHashes := by
    change (m.delete level).tree m.maxLevel = m.tree m.maxLevel
    rw [tree_delete, if_neg hl.ne']
  cases hgr with
  | within heq hh => exact .within heq (ht ▸ hh)
  | above hnx hfl hhs => exact .above hnx (ht ▸ hfl) hhs

variable (hashFunc hash : Bytes → Bytes)

theorem complete_append (hm : m.WellFormed) (fuel level : ℕ) (hash : Bytes) :
    complete hashFunc (fuel + 1) level (m.append level hash) =
      if (m.tree level).length < m.maxDegree then m.append level hash
      else
        let nextLevelHash := computeCombinedHash hashFunc (m.tree level ++ [hash])
        complete hashFunc fuel (level + 1)
          { (m.delete level).append (level + 1) nextLevelHash with
            maxLevel := max m.maxLevel (level + 1) } := by
  have hl := hm.length_le level
  have hd := hm.degree_lt
  have htr : (m.append level hash).tree level = m.tree level ++ [hash] := by
    rw [tree_append, if_pos rfl]
  have hc : uint32 (m.tree level ++ [hash]).length = (m.tree level).length + 1 := by
    rw [List.length_append, List.length_singleton]
    exact uint32_of_lt (by omega)
  rw [complete]
  simp only [htr, hc, delete_append]
  exact if_congr Nat.lt_iff_add_one_le.symm rfl rfl

/-- The loop of `update` ends with every level within the degree.  The
induction is on the fuel, which covers the levels up to the top. -/
theorem complete_spec (fuel : ℕ) (hm : m.WellFormed) (hl : level ≤ m.maxLevel)
    (hfu : m.maxLevel + 2 ≤ fuel + level) (hash : Bytes) :
    (complete hashFunc fuel level (m.append level hash)).WellFormed ∧
      Grows m (complete hashFunc fuel level (m.append level hash)) := by
  induction fuel generalizing m level hash with
  | zero => omega
  | succ fuel ih =>
    rw [complete_append hashFunc hm]
    split_ifs with hrm
    · exact ⟨hm.append hl hash hrm, grows_append m level hash⟩
    rcases hl.lt_or_eq with hlt | htop
    · have hx : max m.maxLevel (level + 1) = m.maxLevel := max_eq_left hlt
      have hnx := ih (hm.delete level) (show level + 1 ≤ m.maxLevel from hlt)
        (show m.maxLevel + 2 ≤ fuel + (level + 1) by omega)
        (computeCombinedHash hashFunc (m.tree level ++ [hash]))
      dsimp only
      rw [hx]
      exact ⟨hnx.1, hnx.2.of_delete hlt⟩
    subst htop
    have hx : max m.maxLevel (m.maxLevel + 1) = m.maxLevel + 1 := max_eq_right (Nat.le_succ _)
    have hfl : m.topHashes.length = m.maxDegree := le_antisymm (hm.length_le _) (not_lt.mp hrm)
    obtain ⟨fuel, rfl⟩ : ∃ tl, fuel = tl + 1 := ⟨fuel - 1, by omega⟩
    have hst : ∀ combined, complete hashFunc (fuel + 1)
        (m.maxLevel + 1) (m.raised combined) = m.raised combined := by
      intro combined
      have ht := hm.two_le
      have htr : (m.raised combined).tree (m.maxLevel + 1) = [combined] := by
        rw [tree_raised hm, if_pos rfl]
      rw [complete, htr]
      exact if_pos (show uint32 1 ≤ m.maxDegree from
        (by decide : uint32 1 ≤ 2).trans ht)
    dsimp only
    rw [hx]
    have hr := hst (computeCombinedHash hashFunc (m.tree m.maxLevel ++ [hash]))
    rw [raised] at hr
    rw [hr]
    exact ⟨hm.raised _, grows_raised hm _ hfl⟩

theorem update_spec (hm : m.WellFormed) (hl : leafLevel ≤ m.maxLevel) (hash : Bytes) :
    (m.update hashFunc hash).WellFormed ∧ Grows m (m.update hashFunc hash) :=
  complete_spec hashFunc (m.maxLevel + 2) hm hl (Nat.le_add_right _ _) hash

end MerkleTree

namespace RangeQueryResultsHelper

/-- With a degree of `2 ^ 32 - 1` nothing is ever hashed. -/
structure WellFormed (helper : RangeQueryResultsHelper) : Prop where
  tree : helper.mt.WellFormed ∨ 2 ^ 32 ≤ helper.maxDegree + 1
  leafLevel_le : leafLevel ≤ helper.mt.maxLevel
  two_le : 2 ≤ helper.mt.maxDegree

variable (hash : Bytes → Bytes)

theorem addResult_maxDegree (helper : RangeQueryResultsHelper) (kvRead : KVRead) :
    (helper.addResult hash kvRead).maxDegree = helper.maxDegree := by
  unfold addResult
  dsimp only
  split_ifs <;> rfl

theorem addResult_spec
    {helper : RangeQueryResultsHelper} (hh : helper.WellFormed) (kvRead : KVRead) :
    (helper.addResult hash kvRead).WellFormed ∧
      helper.mt.Grows (helper.addResult hash kvRead).mt := by
  have hx := addResult_extends hash hh.leafLevel_le kvRead
  have hl := hh.leafLevel_le.trans hx.maxLevel_le
  have ht : 2 ≤ (helper.addResult hash kvRead).mt.maxDegree := hx.maxDegree_eq ▸ hh.two_le
  rcases hh.tree with htr | hlarge
  · have hstep : (helper.addResult hash kvRead).mt.WellFormed ∧
        helper.mt.Grows (helper.addResult hash kvRead).mt := by
      unfold addResult
      dsimp only
      split_ifs
      · exact MerkleTree.update_spec hash htr hh.leafLevel_le _
      · exact ⟨htr, .within rfl (.inl rfl)⟩
    exact ⟨⟨.inl hstep.1, hl, ht⟩, hstep.2⟩
  · refine ⟨⟨.inr ?_, hl, ht⟩, ?_⟩
    · rw [addResult_maxDegree]
      exact hlarge
    unfold addResult
    dsimp only
    split_ifs with hfull
    · have hsm := uint32_lt (helper.pendingResults ++ [kvRead]).length
      omega
    · exact .within rfl (.inl rfl)

end RangeQueryResultsHelper

/-! ## Summaries -/

def StepsOver (hashFunc : Bytes → Bytes) (inMerkle : QueryReadsMerkleSummary)
    (helper : RangeQueryResultsHelper) (result : VersionedKV) : Prop :=
  helper.mt.maxLevel = max leafLevel inMerkle.maxLevel ∧
    helper.mt.maxLevel < (helper.addResult hashFunc result.kvRead).mt.maxLevel ∧
    helper.mt.topHashes <+: inMerkle.maxLevelHashes

def OutgrowsSummary (hashFunc : Bytes → Bytes) (inMerkle : QueryReadsMerkleSummary)
    (helper : RangeQueryResultsHelper) (results : List VersionedKV) : Prop :=
  ∃ before result after, results = before ++ result :: after ∧
    StepsOver hashFunc inMerkle (helper.addResults hashFunc (before.map VersionedKV.kvRead)) result

/-- The invariant of the loop of `rangeQueryHashValidator.validate`. -/
structure Compared (inMerkle : QueryReadsMerkleSummary)
    (helper : RangeQueryResultsHelper) (matched : ℕ) : Prop where
  wellFormed : helper.WellFormed
  below : helper.mt.maxLevel < inMerkle.maxLevel → matched = 0
  reached : inMerkle.maxLevel ≤ helper.mt.maxLevel →
    helper.mt.maxLevel = max leafLevel inMerkle.maxLevel ∧ matched = helper.mt.topHashes.length ∧
      helper.mt.topHashes <+: inMerkle.maxLevelHashes

section Summaries

variable {hashFunc hash : Bytes → Bytes} {inMerkle inM : QueryReadsMerkleSummary}
  {helper : RangeQueryResultsHelper} {matched : ℕ} {result : VersionedKV}
  {results res : List VersionedKV}

theorem outgrowsSummary_cons :
    OutgrowsSummary hash inM helper (result :: res) ↔
      StepsOver hash inM helper result ∨
        OutgrowsSummary hash inM (helper.addResult hash result.kvRead) res := by
  constructor
  · rintro ⟨pre, la, post, hsp, hov⟩
    cases pre with
    | nil =>
      cases hsp
      exact .inl hov
    | cons _ pre =>
      cases hsp
      exact .inr ⟨pre, la, post, rfl, hov⟩
  · rintro (hov | ⟨pre, la, post, rfl, hov⟩)
    · exact ⟨[], result, res, rfl, hov⟩
    · exact ⟨result :: pre, la, post, rfl, hov⟩

theorem not_outgrowsSummary_of_differs (hlf : leafLevel ≤ helper.mt.maxLevel)
    (hl : helper.mt.maxLevel = max leafLevel inM.maxLevel)
    (hdf : ¬ helper.mt.topHashes <+: inM.maxLevelHashes) :
    ¬ OutgrowsSummary hash inM helper res := by
  rintro ⟨pre, _, _, -, hrc, -, hb⟩
  have hx := RangeQueryResultsHelper.addResults_extends hash (pre.map VersionedKV.kvRead) hlf
  have heq := hrc.trans hl.symm
  have ht := hx.hashes_begin heq
  unfold MerkleTree.topHashes at hb hdf
  rw [heq] at hb
  exact hdf (ht.trans hb)

inductive Turn (hashFunc : Bytes → Bytes) (inMerkle : QueryReadsMerkleSummary)
    (helper : RangeQueryResultsHelper) (matched : ℕ) (result : VersionedKV)
    (results : List VersionedKV) : Prop
  | goesOn (next : ℕ)
      (hturn : compareHashes hashFunc inMerkle helper matched
        (result :: results) =
          compareHashes hashFunc inMerkle (helper.addResult hashFunc result.kvRead) next results)
      (hcompared : Compared inMerkle (helper.addResult hashFunc result.kvRead) next)
      (hover : ¬ StepsOver hashFunc inMerkle helper result)
  | differs (hturn : compareHashes hashFunc inMerkle helper matched (result :: results) = .ok false)
      (hover : ¬ StepsOver hashFunc inMerkle helper result)
      (hlevel : (helper.addResult hashFunc result.kvRead).mt.maxLevel =
        max leafLevel inMerkle.maxLevel)
      (hdiffers : ¬ (helper.addResult hashFunc result.kvRead).mt.topHashes <+:
        inMerkle.maxLevelHashes)
  | panics (failure : Failure)
      (hturn : compareHashes hashFunc inMerkle helper matched (result :: results) = .error failure)
      (hover : StepsOver hashFunc inMerkle helper result)

theorem compareHashes_turn (hashFunc : Bytes → Bytes)
    (inM : QueryReadsMerkleSummary) (helper : RangeQueryResultsHelper)
    (matched : ℕ) (result : VersionedKV) (res : List VersionedKV) :
    compareHashes hashFunc inM helper matched (result :: res) =
      if (helper.addResult hashFunc result.kvRead).mt.maxLevel < inM.maxLevel then
        compareHashes hashFunc inM (helper.addResult hashFunc result.kvRead) matched res
      else if matched = (helper.addResult hashFunc result.kvRead).mt.topHashes.length then
        compareHashes hashFunc inM (helper.addResult hashFunc result.kvRead) matched res
      else if (helper.addResult hashFunc result.kvRead).mt.topHashes.length >
          inM.maxLevelHashes.length then
        .ok false
      else
        match (helper.addResult hashFunc result.kvRead).mt.topHashes[matched]?,
          inM.maxLevelHashes[matched]? with
        | some hash, some inHash =>
          if hash = inHash then
            compareHashes hashFunc inM (helper.addResult hashFunc result.kvRead) (matched + 1) res
          else .ok false
        | _, _ => .error (.panic "index out of range") :=
  rfl

theorem merkleSummariesEqual_iff {summary : Option QueryReadsMerkleSummary} :
    merkleSummariesEqual inM summary ↔ summary = some inM := by
  cases summary with
  | none => simp [merkleSummariesEqual]
  | some other =>
    cases inM
    cases other
    simp only [merkleSummariesEqual, Bool.and_eq_true, beq_iff_eq, Option.some.injEq,
      QueryReadsMerkleSummary.mk.injEq, and_assoc]
    constructor <;> rintro ⟨rfl, rfl, rfl⟩ <;> exact ⟨rfl, rfl, rfl⟩

/-- The comparison only succeeds once the whole tree was built. -/
theorem done_of_compareHashes (hc : compareHashes hash inM helper matched res = .ok true) :
    ((helper.addResults hash (res.map VersionedKV.kvRead)).done hash).2 = some inM := by
  induction res generalizing helper matched with
  | nil => exact merkleSummariesEqual_iff.mp (Except.ok.inj hc)
  | cons _ _ ih =>
    rw [compareHashes_turn] at hc
    split_ifs at hc
    · exact ih hc
    · exact ih hc
    · cases hc
    · split at hc
      · split_ifs at hc
        · exact ih hc
        · cases hc
      · cases hc

theorem turn_at {old : List Bytes} (ha : (helper.addResult hashFunc result.kvRead).WellFormed)
    (hl : (helper.addResult hashFunc result.kvRead).mt.maxLevel = max leafLevel inM.maxLevel)
    (hov : ¬ StepsOver hashFunc inM helper result)
    (hb : old <+: inM.maxLevelHashes) (hm : matched = old.length)
    (ht : (helper.addResult hashFunc result.kvRead).mt.topHashes = old ∨
      ∃ hash, (helper.addResult hashFunc result.kvRead).mt.topHashes = old ++ [hash]) :
    Turn hashFunc inM helper matched result res := by
  have hrc : inM.maxLevel ≤ (helper.addResult hashFunc result.kvRead).mt.maxLevel :=
    hl ▸ le_max_right _ _
  have hcompared : ∀ next,
      next = (helper.addResult hashFunc result.kvRead).mt.topHashes.length →
      (helper.addResult hashFunc result.kvRead).mt.topHashes <+: inM.maxLevelHashes →
      Compared inM (helper.addResult hashFunc result.kvRead) next := by
    intro _ hnx htp
    exact ⟨ha, fun hle => absurd hle hrc.not_gt, fun _ => ⟨hl, hnx, htp⟩⟩
  have htr := compareHashes_turn hashFunc inM helper matched result res
  rw [if_neg hrc.not_gt] at htr
  rcases ht with heq | ⟨hash, hn⟩
  · rw [heq, if_pos hm] at htr
    exact .goesOn matched htr (hcompared matched (heq ▸ hm) (heq ▸ hb)) hov
  obtain ⟨tl, hrs⟩ := hb
  rw [hn, ← hrs, if_neg (by simp [hm])] at htr
  cases tl with
  | nil =>
    rw [if_pos (by simp)] at htr
    refine .differs htr hov hl ?_
    rw [hn, ← hrs]
    intro hbg
    have hlen := hbg.length_le
    simp at hlen
  | cons inHash tl =>
    rw [if_neg (by simp)] at htr
    simp only [hm, List.getElem?_append_right le_rfl, Nat.sub_self, List.getElem?_cons_zero] at htr
    by_cases hel : hash = inHash
    · rw [if_pos hel] at htr
      refine .goesOn (old.length + 1) (hm ▸ htr) (hcompared _ ?_ ?_) hov
      · rw [hn, List.length_append, List.length_singleton]
      · rw [hn, ← hrs, hel]
        exact ⟨tl, by simp⟩
    · rw [if_neg hel] at htr
      refine .differs (hm ▸ htr) hov hl ?_
      rw [hn, ← hrs, List.prefix_append_right_inj]
      simpa using hel

variable (hcompared : Compared inM helper matched)

include hcompared

theorem turn_above (hrc : inM.maxLevel ≤ helper.mt.maxLevel)
    (hv : (helper.addResult hashFunc result.kvRead).mt.maxLevel = helper.mt.maxLevel + 1)
    (hfl : helper.mt.topHashes.length = helper.mt.maxDegree) {hash : Bytes}
    (hhs : (helper.addResult hashFunc result.kvRead).mt.topHashes = [hash]) :
    Turn hashFunc inM helper matched result res := by
  obtain ⟨hat, _, hb⟩ := hcompared.reached hrc
  have ht := hcompared.wellFormed.two_le
  have hl := hb.length_le
  have htr := compareHashes_turn hashFunc inM helper matched result res
  have hn : [hash].length = 1 := rfl
  have hi : [hash][matched]? = none := List.getElem?_eq_none (by omega)
  rw [if_neg (by omega), hhs, if_neg (by omega), if_neg (by omega), hi] at htr
  exact .panics _ htr ⟨hat, by omega, hb⟩

theorem Compared.turn (hashFunc : Bytes → Bytes) (result : VersionedKV) (res : List VersionedKV) :
    Turn hashFunc inM helper matched result res := by
  obtain ⟨ha, hgr⟩ := RangeQueryResultsHelper.addResult_spec hashFunc
    hcompared.wellFormed result.kvRead
  have hlf := ha.leafLevel_le
  rcases lt_or_ge helper.mt.maxLevel inM.maxLevel with hlt | hreach
  · have hov : ¬ StepsOver hashFunc inM helper result := by
      rintro ⟨_, -⟩
      omega
    have hm := hcompared.below hlt
    cases hgr with
    | within hl =>
      have hst : (helper.addResult hashFunc result.kvRead).mt.maxLevel < inM.maxLevel := hl ▸ hlt
      have htr := compareHashes_turn hashFunc inM helper matched result res
      rw [if_pos hst] at htr
      exact .goesOn matched htr ⟨ha, fun _ => hm, fun hge => absurd hst hge.not_gt⟩ hov
    | above _ _ hhs =>
      obtain ⟨hash, hhs⟩ := hhs
      rcases lt_or_ge (helper.addResult hashFunc result.kvRead).mt.maxLevel
        inM.maxLevel with hst | hat
      · have htr := compareHashes_turn hashFunc inM helper matched result res
        rw [if_pos hst] at htr
        exact .goesOn matched htr ⟨ha, fun _ => hm, fun hge => absurd hst hge.not_gt⟩ hov
      · exact turn_at ha (by omega) hov List.nil_prefix hm (.inr ⟨hash, hhs⟩)
  · obtain ⟨hat, hm, hb⟩ := hcompared.reached hreach
    cases hgr with
    | within hl hh =>
      refine turn_at ha (hl.trans hat) ?_ hb hm hh
      rintro ⟨-, _, -⟩
      omega
    | above hl hfl hhs =>
      obtain ⟨_, hhs⟩ := hhs
      exact turn_above hcompared hreach hl hfl hhs

theorem compareHashes_fails_iff :
    (∃ failure, compareHashes hash inM helper matched res = .error failure) ↔
      OutgrowsSummary hash inM helper res := by
  induction res generalizing helper matched with
  | nil => simp [compareHashes, OutgrowsSummary]
  | cons result res ih =>
    rw [outgrowsSummary_cons]
    cases hcompared.turn hash result res with
    | goesOn _ htr hnx hov =>
      rw [htr, ih hnx]
      simp [hov]
    | differs htr hov hl hdf =>
      have hlf := (RangeQueryResultsHelper.addResult_spec hash
        hcompared.wellFormed result.kvRead).1.leafLevel_le
      simp [htr, hov, not_outgrowsSummary_of_differs hlf hl hdf]
    | panics _ htr hov => simp [htr, hov]

end Summaries

def hashingHelper (maxDegree : ℕ) : RangeQueryResultsHelper where
  pendingResults := []
  mt := emptyMerkleTree maxDegree
  maxDegree := maxDegree
  hashingEnabled := true

theorem compared_hashingHelper (inM : QueryReadsMerkleSummary) (hd : 2 ≤ inM.maxDegree) :
    Compared inM (hashingHelper inM.maxDegree) 0 where
  wellFormed :=
    { tree := by
        rcases lt_or_ge (inM.maxDegree + 1) (2 ^ 32) with hsmall | hlarge
        · exact .inl ⟨hd, hsmall, fun _ => Nat.zero_le _, fun _ _ => rfl⟩
        · exact .inr hlarge
      leafLevel_le := le_rfl
      two_le := hd }
  below := fun _ => rfl
  reached := by
    intro hl
    exact ⟨(max_eq_left hl).symm, rfl, List.nil_prefix⟩

def builtSummary (hashFunc : Bytes → Bytes) (maxDegree : ℕ) (results : List VersionedKV) :
    Option QueryReadsMerkleSummary :=
  (((hashingHelper maxDegree).addResults hashFunc (results.map VersionedKV.kvRead)).done hashFunc).2

variable (hashFunc hash : Bytes → Bytes)

theorem validateHashes_fails_iff (inM : QueryReadsMerkleSummary) (res : List VersionedKV) :
    (∃ failure, validateHashes hash inM res = .error failure) ↔
      inM.maxDegree < 2 ∨
        OutgrowsSummary hash inM (hashingHelper inM.maxDegree)
          res := by
  unfold validateHashes newRangeQueryResultsHelper newMerkleTree
  by_cases hd : inM.maxDegree < 2
  · simp [hd, bind, Except.bind]
  · have hcompared := compared_hashingHelper inM (not_lt.mp hd)
    rw [← compareHashes_fails_iff hcompared]
    simp only [hd, if_false, false_or]
    rfl

theorem validateHashes_agrees_iff (inMerkle : QueryReadsMerkleSummary)
    (results : List VersionedKV) :
    (∃ same, validateHashes hashFunc inMerkle results = .ok same ∧
      (same = true ↔ builtSummary hashFunc inMerkle.maxDegree results = some inMerkle)) ↔
    2 ≤ inMerkle.maxDegree ∧
      ¬ OutgrowsSummary hashFunc inMerkle (hashingHelper inMerkle.maxDegree) results := by
  have hfl := validateHashes_fails_iff hashFunc inMerkle results
  rw [← not_lt, ← not_or, ← hfl]
  constructor
  · rintro ⟨_, hok, -⟩ ⟨_, herr⟩
    rw [hok] at herr
    cases herr
  · intro hrtr
    cases hok : validateHashes hashFunc inMerkle results with
    | error failure => exact absurd ⟨failure, hok⟩ hrtr
    | ok same =>
      have hdgr : ¬ inMerkle.maxDegree < 2 := fun hsm => hrtr (hfl.mpr (.inl hsm))
      have hnew : newRangeQueryResultsHelper true inMerkle.maxDegree =
          .ok (hashingHelper inMerkle.maxDegree) := by
        simp [newRangeQueryResultsHelper, newMerkleTree, hdgr, hashingHelper]
      refine ⟨same, rfl, ?_, ?_⟩
      · rintro rfl
        rw [validateHashes, hnew] at hok
        exact done_of_compareHashes hok
      · intro hbl
        have hsl := validateHashes_self hnew results hbl
        exact Except.ok.inj (hok.symm.trans hsl)

/-- Nine results make the three leaves of a tree of level two; the summary has
the hashes of the first two leaves, at level one. -/
theorem lowLevel_summary_panics :
    validateHashes (fun _ => []) { maxDegree := 2, maxLevel := 1, maxLevelHashes := [[], []] }
        (List.replicate 9
          { key := [], value := none, metadata := none, version := { blockNum := 1, txNum := 0 } }) =
      .error (.panic "index out of range") := rfl

def ReadsAbsentVersion (kvReads : List KVRead) (results : List VersionedKV) : Prop :=
  ∃ before result after rest, results = before ++ result :: after ∧
    kvReads = before.map VersionedKV.kvRead ++
      { key := result.key, version := none } :: rest

theorem readsAbsentVersion_cons {kvRead : KVRead} {krs : List KVRead}
    {result : VersionedKV} {res : List VersionedKV} :
    ReadsAbsentVersion (kvRead :: krs) (result :: res) ↔
      kvRead = { key := result.key, version := none } ∨
        kvRead = result.kvRead ∧ ReadsAbsentVersion krs res := by
  constructor
  · rintro ⟨pre, la, post, tl, hr, hrd⟩
    cases pre with
    | nil =>
      cases hr
      exact .inl (List.cons.inj hrd).1
    | cons _ pre =>
      cases hr
      obtain ⟨hre, hrd⟩ := List.cons.inj hrd
      exact .inr ⟨hre, pre, la, post, tl, rfl, hrd⟩
  · rintro (rfl | ⟨rfl, pre, la, post, tl, rfl, rfl⟩)
    · exact ⟨[], result, res, krs, rfl, rfl⟩
    · exact ⟨result :: pre, la, post, tl, rfl, rfl⟩

theorem validateRawReads_fails_iff (krs : List KVRead) (res : List VersionedKV) :
    (∃ failure, validateRawReads krs res = .error failure) ↔ ReadsAbsentVersion krs res := by
  induction krs generalizing res with
  | nil => simp [validateRawReads, ReadsAbsentVersion]
  | cons kvRead _ ih =>
    cases res with
    | nil => simp [validateRawReads, ReadsAbsentVersion]
    | cons result =>
      rw [validateRawReads, readsAbsentVersion_cons, ← ih]
      rcases kvRead with ⟨key, ver⟩
      by_cases hk : result.key = key
      · subst hk
        rcases ver with _ | ver
        · simp
        by_cases hv : result.version = ver
        · have heq : areSame (some ver) (some ver) = true := by
            simp
          simp [hv, heq, VersionedKV.kvRead, newKVRead]
        · have hdf : areSame (some result.version) (some ver) = false := by
            rw [← Bool.not_eq_true, areSame_iff]
            simpa using hv
          simp [hdf, Ne.symm hv, VersionedKV.kvRead, newKVRead]
      · simp [hk, Ne.symm hk, VersionedKV.kvRead, newKVRead]

def ResultsAbort (readsInfo : ReadsInfo) (results : List VersionedKV) : Prop :=
  match readsInfo with
  | .readsMerkleHashes inMerkle =>
    inMerkle.maxDegree < 2 ∨
      OutgrowsSummary hashFunc inMerkle (hashingHelper inMerkle.maxDegree) results
  | .rawReads kvReads => ReadsAbsentVersion kvReads results
  | .unset => False

def RangeQueryAborts (state : DB) (ns : GoString) (rqi : RangeQueryInfo) : Prop :=
  ResultsAbort hashFunc rqi.readsInfo
    (rangeResults (state.data (.pub ns)) rqi.startKey rqi.endKey (!rqi.itrExhausted))

theorem validateRangeQuery_fails_iff (db : DB)
    (us : PublicAndHashUpdates) (ns : GoString) (rqi : RangeQueryInfo) :
    (∃ failure, validateRangeQuery hash db ns rqi us.publicUpdates = .error failure) ↔
      RangeQueryAborts hash (db.applyUpdates us) ns rqi := by
  rw [validateRangeQuery_applyUpdates, validateRangeQuery_eq]
  unfold RangeQueryAborts ResultsAbort validateResults
  cases rqi.readsInfo with
  | unset => simp [ReadsInfo.kvReads, validateRawReads]
  | rawReads => exact validateRawReads_fails_iff _ _
  | readsMerkleHashes => exact validateHashes_fails_iff _ _ _

end FabricSequencer
