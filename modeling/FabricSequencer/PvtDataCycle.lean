import FabricSequencer.PvtDataReconcile

/-!
# A reconciliation cycle

`Reconciler.reconcile` asks a tracker for the newest blocks with missing data until there are none.
The tracker goes down from the last block, and finds in the store what is there by then.
-/

namespace FabricSequencer.Pvtdatastorage

def MissingPvtDataInfo.add (info : MissingPvtDataInfo) (blkNum txNum : ℕ) (ns coll : GoString) :
    MissingPvtDataInfo :=
  let missingBlockPvtDataInfo := (info.get blkNum).getD .empty
  info.insert blkNum (missingBlockPvtDataInfo.insert txNum
    ((missingBlockPvtDataInfo.get txNum).getD [] ++ [(ns, coll)]))

/-- The range scan goes from higher block numbers to lower ones and ends before zero. -/
def MissingData.scanned (list : MissingData) (startingBlockNum : ℕ) : List (NsCollBlk × Finset ℕ) :=
  (list.entries.filter fun entry =>
    1 ≤ entry.1.blkNum ∧ entry.1.blkNum ≤ startingBlockNum).insertionSort
      fun first second => second.1.blkNum ≤ first.1.blkNum

structure MissingScan where
  missingPvtDataInfo : MissingPvtDataInfo := .empty
  numberOfBlockProcessed : ℕ := 0
  /-- set when the limit is reached -/
  lastProcessedBlock : Option ℕ := none

/-- The last committed block is loaded for each entry. -/
def getMissingData (btlPolicy : BTLPolicy) (lastCommittedBlock : NsCollBlk → ℕ) (maxBlock : ℕ) :
    List (NsCollBlk × Finset ℕ) → MissingScan → Except String MissingPvtDataInfo
  | [], scan => .ok scan.missingPvtDataInfo
  | (key, bitmap) :: rest, scan =>
    if scan.lastProcessedBlock.any (· ≠ key.blkNum) then .ok scan.missingPvtDataInfo
    else
      match isExpired btlPolicy key.ns key.coll key.blkNum (lastCommittedBlock key) with
      | .error err => .error err
      | .ok true => getMissingData btlPolicy lastCommittedBlock maxBlock rest scan
      | .ok false =>
        let isNew := (scan.missingPvtDataInfo.get key.blkNum).isNone
        let numberOfBlockProcessed := scan.numberOfBlockProcessed + isNew.toNat
        getMissingData btlPolicy lastCommittedBlock maxBlock rest
          { missingPvtDataInfo := (bitmap.sort (· ≤ ·)).foldl
              (·.add key.blkNum · key.ns key.coll) scan.missingPvtDataInfo
            numberOfBlockProcessed := numberOfBlockProcessed
            lastProcessedBlock :=
              if isNew ∧ numberOfBlockProcessed = maxBlock then some key.blkNum
              else scan.lastProcessedBlock }

/-- What one turn of the loop finds.  The store may have changed in any way since the last one. -/
structure Round where
  isPvtstoreAheadOfBlkstore : Bool
  accessDeprioMissingData : Bool
  db : StoreDB
  lastCommittedBlock : NsCollBlk → ℕ
  fetchReconciledItems : Except String Unit
  commitPvtDataOfOldBlocks : Except String Unit

variable (btlPolicy : BTLPolicy) (maxBlock : ℕ)

/-- The answer of the tracker, and where it starts the next time. -/
def Round.getMissingPvtDataInfoForMostRecentBlocks (round : Round) (nextStartingBlockNum : ℕ) :
    Except String (MissingPvtDataInfo × ℕ) :=
  if nextStartingBlockNum = 0 ∨ round.isPvtstoreAheadOfBlkstore then
    .ok (.empty, nextStartingBlockNum)
  else
    let list := if round.accessDeprioMissingData then round.db.elgDeprioMissingData
      else round.db.elgPrioMissingData
    (if maxBlock < 1 then .ok .empty
      else getMissingData btlPolicy round.lastCommittedBlock maxBlock
        (list.scanned nextStartingBlockNum) {}).map fun info =>
      -- one less than the smallest block, in 64 bits
      (info, uint64 (info.keys.foldl min maxUint64 + maxUint64))

/-- The blocks of each round, unless there are `fuel` rounds. -/
def reconcile (rounds : ℕ → Round) : ℕ → ℕ → ℕ → Option (List (List ℕ))
  | 0, _, _ => none
  | fuel + 1, index, nextStartingBlockNum =>
    match (rounds index).getMissingPvtDataInfoForMostRecentBlocks btlPolicy maxBlock
        nextStartingBlockNum with
    | .error _ => some []
    | .ok (info, next) =>
      if info.keys = [] then some []
      else
        match (rounds index).fetchReconciledItems, (rounds index).commitPvtDataOfOldBlocks with
        | .ok _, .ok _ => (reconcile rounds fuel (index + 1) next).map (info.keys :: ·)
        | _, _ => some [info.keys]

variable {btlPolicy maxBlock} {info : MissingPvtDataInfo}

theorem mem_keys_foldl_add {bn other : ℕ} {ns coll : GoString} {txNums : List ℕ}
    (ho : other ∈ (txNums.foldl (·.add bn · ns coll) info).keys) :
    other = bn ∨ other ∈ info.keys := by
  induction txNums generalizing info with
  | nil => exact .inr ho
  | cons _ _ ih =>
    rcases ih ho with heq | hadd
    · exact .inl heq
    simp only [MissingPvtDataInfo.add, SortedMap.mem_keys_iff, SortedMap.get_insert] at hadd
    by_cases heq : other = bn
    · exact .inl heq
    · rw [if_neg heq] at hadd
      exact .inr (SortedMap.mem_keys_iff.mpr hadd)

theorem mem_keys_getMissingData {lastCommittedBlock : NsCollBlk → ℕ}
    {es : List (NsCollBlk × Finset ℕ)} {scan : MissingScan}
    (hin : getMissingData btlPolicy lastCommittedBlock maxBlock es scan = .ok info)
    {blkNum : ℕ} (hb : blkNum ∈ info.keys) :
    blkNum ∈ scan.missingPvtDataInfo.keys ∨ ∃ entry ∈ es, entry.1.blkNum = blkNum := by
  induction es generalizing scan with
  | nil =>
    cases hin
    exact .inl hb
  | cons _ _ ih =>
    simp only [List.exists_mem_cons_iff]
    unfold getMissingData at hin
    split_ifs at hin
    · cases hin
      exact .inl hb
    split at hin
    · cases hin
    · exact (ih hin).imp_right Or.inr
    rcases ih hin with hadd | hlat
    · rcases mem_keys_foldl_add hadd with heq | hpre
      · exact .inr (.inl heq.symm)
      · exact .inl hpre
    · exact .inr (.inr hlat)

theorem le_foldl_min_iff {bs : List ℕ} {bound least : ℕ} :
    least ≤ bs.foldl min bound ↔ least ≤ bound ∧ ∀ blkNum ∈ bs, least ≤ blkNum := by
  induction bs generalizing bound with
  | nil => simp
  | cons _ _ ih => simp [ih, and_assoc]

/-- The tracker answers with blocks from its start down, and goes below all of them. -/
theorem Round.next_lt {round : Round} {start next : ℕ}
    (hrn : round.getMissingPvtDataInfoForMostRecentBlocks btlPolicy maxBlock start =
      .ok (info, next))
    (hin : info.keys ≠ []) : ∀ bn ∈ info.keys, next < bn ∧ bn ≤ start := by
  unfold Round.getMissingPvtDataInfoForMostRecentBlocks at hrn
  split at hrn
  · cases hrn
    exact absurd rfl hin
  dsimp only at hrn
  generalize (if round.accessDeprioMissingData = true then round.db.elgDeprioMissingData
    else round.db.elgPrioMissingData) = list at hrn
  split at hrn
  · cases hrn
    exact absurd rfl hin
  cases hdt : getMissingData btlPolicy round.lastCommittedBlock maxBlock
      (list.scanned start) {} with
  | error =>
    rw [hdt] at hrn
    cases hrn
  | ok =>
    rw [hdt] at hrn
    cases hrn
    have hl : ∀ bn ∈ info.keys, 1 ≤ bn ∧ bn ≤ start := by
      intro _ hb
      rcases mem_keys_getMissingData hdt hb with hno | ⟨_, he, rfl⟩
      · cases hno
      · rw [MissingData.scanned, List.mem_insertionSort, List.mem_filter] at he
        exact of_decide_eq_true he.2
    have hls : 1 ≤ info.keys.foldl min maxUint64 :=
      le_foldl_min_iff.mpr ⟨by decide, fun bn hb => (hl bn hb).1⟩
    obtain ⟨_, hm⟩ := le_foldl_min_iff.mp (le_refl (info.keys.foldl min maxUint64))
    intro bn hb
    refine ⟨?_, (hl bn hb).2⟩
    have hle := hm bn hb
    unfold uint64 maxUint64 at *
    omega

theorem reconcile_descends (rounds : ℕ → Round) (i start : ℕ) :
    ∃ fuel bs, reconcile btlPolicy maxBlock rounds fuel i start = some bs ∧
      (∀ round ∈ bs, ∀ bn ∈ round, bn ≤ start) ∧
      bs.Pairwise fun earlier lt => ∀ first ∈ earlier, ∀ b ∈ lt, b < first := by
  -- the start of the next round is smaller
  induction start using Nat.strong_induction_on generalizing i with
  | _ start ih =>
    cases hrn : (rounds i).getMissingPvtDataInfoForMostRecentBlocks btlPolicy maxBlock start with
    | error => exact ⟨1, [], by simp [reconcile, hrn], by simp, .nil⟩
    | ok answer =>
      obtain ⟨info, next⟩ := answer
      by_cases hin : info.keys = []
      · exact ⟨1, [], by simp [reconcile, hrn, hin], by simp, .nil⟩
      have hlt := Round.next_lt hrn hin
      obtain ⟨block, hb⟩ := List.exists_mem_of_ne_nil _ hin
      have hnx : next < start := (hlt block hb).1.trans_le (hlt block hb).2
      obtain ⟨fuel, bs, hes, hle, hds⟩ := ih next hnx (i + 1)
      have hla : ∀ round ∈ [info.keys], ∀ bn ∈ round, bn ≤ start := by
        simpa using fun bn hm => (hlt bn hm).2
      cases hft : (rounds i).fetchReconciledItems with
      | error =>
        exact ⟨1, [info.keys], by simp [reconcile, hrn, hin, hft], hla, by simp⟩
      | ok =>
        cases hc : (rounds i).commitPvtDataOfOldBlocks with
        | error =>
          exact ⟨1, [info.keys], by simp [reconcile, hrn, hin, hft, hc], hla,
            by simp⟩
        | ok =>
          refine ⟨fuel + 1, info.keys :: bs, by simp [reconcile, hrn, hin, hft, hc, hes], ?_, ?_⟩
          · rw [List.forall_mem_cons]
            exact ⟨fun bn hm => (hlt bn hm).2,
              fun round hrn bn hm => (hle round hrn bn hm).trans hnx.le⟩
          · rw [List.pairwise_cons]
            exact ⟨fun round hrn first hf b hs =>
              (hle round hrn b hs).trans_lt (hlt first hf).1, hds⟩

theorem reconcile_ends (btlPolicy : BTLPolicy) (maxBlock : ℕ) (rounds : ℕ → Round) :
    ∃ fuel blocks, reconcile btlPolicy maxBlock rounds fuel 0 maxUint64 = some blocks ∧
      blocks.Pairwise fun earlier later => ∀ first ∈ earlier, ∀ second ∈ later, second < first := by
  obtain ⟨fuel, blocks, hes, -, hds⟩ := reconcile_descends rounds 0 maxUint64
  exact ⟨fuel, blocks, hes, hds⟩

end FabricSequencer.Pvtdatastorage
