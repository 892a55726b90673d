import FabricSequencer.RangeQueryConsistency

/-!
# What a range scan records

A scan is what a caller does with an iterator: the range it asks for and how
often it advances.  The iterator is a function of the scan, and so is the
range query information that it leaves in the read-write set.
-/

namespace FabricSequencer

open SortedMap List Option ResultsItr VersionedKV DB Bool

structure Scan where
  ns : GoString
  startKey : GoString
  endKey : GoString
  advanced : ℕ

namespace Scan

variable (db : DB) (hashFunc hash : Bytes → Bytes) (scan : Scan)

def items : List (GoString × VersionedValue) :=
  db.getStateRangeScanIterator (.pub scan.ns) scan.startKey scan.endKey

def delivered : List (GoString × VersionedValue) := (scan.items db).take scan.advanced

def exhausted : Bool := (scan.items db).length < scan.advanced

def lastKey : GoString := ((scan.delivered db).getLast?.map Prod.fst).getD []

def simulationHelper : RangeQueryResultsHelper where
  pendingResults := []
  mt := emptyMerkleTree maxDegreeQueryReadsHashing
  maxDegree := maxDegreeQueryReadsHashing
  hashingEnabled := queryReadsHashingEnabled

def storedRead (entry : GoString × VersionedValue) : KVRead :=
  newKVRead entry.1 (some entry.2.version)

def itr : ResultsItr where
  ns := scan.ns
  endKey := scan.endKey
  dbItr := (scan.items db).drop scan.advanced
  rangeQueryInfo :=
    { startKey := scan.startKey
      endKey := if scan.exhausted db then scan.endKey else scan.lastKey db
      itrExhausted := scan.exhausted db
      readsInfo := .unset }
  rangeQueryResultsHelper := simulationHelper.addResults hashFunc
    ((scan.delivered db).map storedRead)

def advance : Scan := { scan with advanced := scan.advanced + 1 }

theorem newRangeQueryResultsHelper_simulation :
    newRangeQueryResultsHelper queryReadsHashingEnabled
      maxDegreeQueryReadsHashing = .ok simulationHelper :=
  rfl

theorem newResultsItr_eq (ns sk ek : GoString) :
    newResultsItr db ns sk ek queryReadsHashingEnabled maxDegreeQueryReadsHashing =
      .ok (itr db hash ⟨ns, sk, ek, 0⟩) := by
  unfold newResultsItr
  rw [newRangeQueryResultsHelper_simulation]
  rfl

@[simp] theorem advanced_advance : scan.advance.advanced = scan.advanced + 1 := rfl

@[simp] theorem items_advance : scan.advance.items db = scan.items db := rfl

variable {scan : Scan}

theorem next_itr_of_lt (hle : scan.advanced < (scan.items db).length) :
    ((scan.itr db hash).next hash).2 = scan.advance.itr db hash := by
  obtain ⟨e, rest, hdr⟩ : ∃ e rest, (scan.items db).drop scan.advanced = e :: rest :=
    exists_cons_of_ne_nil (by simpa using hle)
  have he : (scan.items db)[scan.advanced]? = some e := by
    rw [← List.head?_drop, hdr]
    rfl
  have hrs : (scan.items db).drop (scan.advanced + 1) = rest := by
    rw [← tail_drop, hdr]
    rfl
  have hdl : scan.advance.delivered db = scan.delivered db ++ [e] := by
    unfold delivered
    rw [items_advance, advanced_advance, take_add_one, he]
    rfl
  have hp : scan.exhausted db = false := by
    simp [exhausted, hle.le]
  have haf : scan.advance.exhausted db = false := by
    simp [exhausted, hle]
  have hla : scan.advance.lastKey db = e.1 := by
    simp [lastKey, hdl]
  simp only [itr, haf, hla, hdl, items_advance]
  simp [ResultsItr.next, ResultsItr.updateRangeQueryInfo, hdr, hp, advance,
    hrs, RangeQueryResultsHelper.addResults, storedRead]

theorem next_itr_of_le (hdo : (scan.items db).length ≤ scan.advanced) :
    ((scan.itr db hash).next hash).2 = scan.advance.itr db hash := by
  have hdr : (scan.items db).drop scan.advanced = [] := drop_of_length_le hdo
  have hrs : (scan.items db).drop (scan.advanced + 1) = [] := drop_of_length_le (by omega)
  have hdl : scan.advance.delivered db = scan.delivered db := by
    unfold delivered
    rw [items_advance, advanced_advance, take_of_length_le hdo, take_of_length_le (by omega)]
  have haf : scan.advance.exhausted db = true := by
    simp [exhausted, Nat.lt_succ_of_le hdo]
  simp only [itr, haf, hdl, items_advance]
  simp [ResultsItr.next, ResultsItr.updateRangeQueryInfo, hdr, advance, hrs]

theorem next_itr (scan : Scan) : ((scan.itr db hash).next hash).2 = scan.advance.itr db hash := by
  rcases Nat.lt_or_ge scan.advanced (scan.items db).length with hless | hdone
  · exact next_itr_of_lt db hash hless
  · exact next_itr_of_le db hash hdone

def HasKeyFrom (ns startKey : GoString) : Prop :=
  ∃ key, (db.getState (.pub ns) key).isSome ∧ (startKey ≤ key ∨ key = [])

def OpenEnded (ns : GoString) (rqi : RangeQueryInfo) : Prop :=
  rqi.itrExhausted = false ∧ rqi.endKey = [] ∧ HasKeyFrom db ns rqi.startKey

/-- The caller never advanced, or only to the empty key. -/
def LeftOpen (scan : Scan) : Prop :=
  scan.advanced = 0 ∧ HasKeyFrom db scan.ns scan.startKey ∨
    scan.advanced = 1 ∧ scan.startKey = [] ∧ (db.getState (.pub scan.ns) []).isSome

variable {vv : VersionedValue}

theorem mem_items_iff {key : GoString} :
    (key, vv) ∈ scan.items db ↔
      db.getState (.pub scan.ns) key = some vv ∧ inRange scan.startKey scan.endKey key = true := by
  unfold items getStateRangeScanIterator
  rw [← get_eq_some_iff, get_restrict]
  split_ifs with hrange
  · simp [hrange, getState]
  · simp [hrange]

theorem items_sorted (scan : Scan) : (scan.items db).Pairwise fun a b => a.1 < b.1 :=
  SortedMap.sorted _

theorem items_eq_cons_of_nil_mem (hm : (([] : GoString), vv) ∈ scan.items db) :
    ∃ rest, scan.items db = ([], vv) :: rest := by
  have hsr := scan.items_sorted db
  cases hit : scan.items db with
  | nil =>
    rw [hit] at hm
    cases hm
  | cons _ rest =>
    rw [hit] at hm hsr
    rcases mem_cons.mp hm with hhd | hlat
    · exact ⟨rest, by rw [hhd]⟩
    · exact absurd ((pairwise_cons.mp hsr).1 _ hlat) (not_lt_nil _)

theorem delivered_split (hp : 0 < scan.advanced) (hbn : scan.advanced ≤ (scan.items db).length) :
    ∃ pre e tl, scan.items db = pre ++ e :: tl ∧ scan.delivered db = pre ++ [e] ∧
      pre.length + 1 = scan.advanced ∧ scan.lastKey db = e.1 := by
  obtain ⟨count, hc⟩ := Nat.exists_eq_succ_of_ne_zero hp.ne'
  have hle : count < (scan.items db).length := by omega
  have hdl : scan.delivered db = (scan.items db).take count ++ [(scan.items db)[count]] := by
    rw [delivered, hc, take_append_getElem hle]
  refine ⟨(scan.items db).take count, (scan.items db)[count],
    (scan.items db).drop (count + 1), ?_, hdl, ?_, ?_⟩
  · rw [← drop_eq_getElem_cons hle, take_append_drop]
  · rw [length_take, min_eq_left hle.le, hc]
  · simp only [lastKey, hdl, List.getLast?_concat, map_some, getD_some]

theorem delivered_of_lastKey_nil (hp : 0 < scan.advanced)
    (hbn : scan.advanced ≤ (scan.items db).length) (hla : scan.lastKey db = []) :
    scan.advanced = 1 ∧ ∃ vv, scan.delivered db = [([], vv)] ∧
      (([] : GoString), vv) ∈ scan.items db := by
  obtain ⟨pre, ⟨key, vv⟩, _, hit, hdl, hl, hkey⟩ := delivered_split db hp hbn
  obtain rfl : key = [] := by
    rw [← hla, hkey]
  have hr : pre = [] := by
    cases pre with
    | nil => rfl
    | cons =>
      have hsr := scan.items_sorted db
      rw [hit, cons_append, pairwise_cons] at hsr
      exact absurd (hsr.1 ([], vv) (by simp)) (not_lt_nil _)
  subst hr
  exact ⟨hl.symm, vv, hdl, by rw [hit]; simp⟩

theorem openEnded_iff_leftOpen (scan : Scan) :
    OpenEnded db scan.ns (scan.itr db hash).rangeQueryInfo ↔ LeftOpen db scan := by
  unfold OpenEnded LeftOpen
  simp only [itr]
  rcases Nat.eq_zero_or_pos scan.advanced with hzero | hpos
  · have hop : scan.exhausted db = false := by simp [exhausted, hzero]
    have hla : scan.lastKey db = [] := by simp [lastKey, delivered, hzero]
    simp [hzero, hop, hla]
  constructor
  · rintro ⟨hop, hd, _⟩
    have hbn : scan.advanced ≤ (scan.items db).length := by
      simpa [exhausted] using hop
    rw [hop] at hd
    obtain ⟨hn, _, -, hm⟩ := delivered_of_lastKey_nil db hpos hbn hd
    obtain ⟨hs, hrn⟩ := (mem_items_iff db).mp hm
    refine .inr ⟨hn, ?_, by rw [hs]; rfl⟩
    simp only [inRange, and_eq_true, decide_eq_true_eq] at hrn
    cases hsr : scan.startKey with
    | nil => rfl
    | cons byte bytes =>
      rw [hsr] at hrn
      exact absurd (nil_lt_cons byte bytes) (not_lt.mpr hrn.1)
  · rintro (⟨_, -⟩ | ⟨hn, hsr, hs⟩)
    · omega
    obtain ⟨_, hvv⟩ := isSome_iff_exists.mp hs
    have hrn : inRange scan.startKey scan.endKey [] = true := by
      cases hd : scan.endKey <;> simp [inRange, hsr]
    obtain ⟨_, hit⟩ := items_eq_cons_of_nil_mem db ((mem_items_iff db).mpr ⟨hvv, hrn⟩)
    have hop : scan.exhausted db = false := by
      simp [exhausted, hn, hit]
    have hla : scan.lastKey db = [] := by
      simp [lastKey, delivered, hn, hit]
    refine ⟨hop, by simp [hop, hla], [], hs, .inr rfl⟩

/-! ## Validating the information -/

theorem length_eq_of_validateRawReads {krs : List KVRead} {results : List VersionedKV}
    (hok : validateRawReads krs results = .ok true) : krs.length = results.length := by
  induction krs generalizing results with
  | nil =>
    cases results with
    | nil => rfl
    | cons => simp [validateRawReads] at hok
  | cons _ _ ih =>
    cases results with
    | nil => simp [validateRawReads] at hok
    | cons =>
      unfold validateRawReads at hok
      split_ifs at hok
      · cases hok
      split at hok
      · cases hok
      · split_ifs at hok
        · cases hok
        · rw [length_cons, length_cons, ih hok]

theorem rangeResults_lastKey (hp : 0 < scan.advanced)
    (hbn : scan.advanced ≤ (scan.items db).length) (hla : scan.lastKey db ≠ []) :
    (rangeResults (db.data (.pub scan.ns)) scan.startKey (scan.lastKey db) true).map kvRead =
      (scan.delivered db).map storedRead := by
  obtain ⟨before, e, _, hit, hdl, -, hk⟩ := delivered_split db hp hbn
  have hm : (e.1, e.2) ∈ scan.items db := by
    rw [hit]
    simp
  obtain ⟨hs, hrn⟩ := (mem_items_iff db).mp hm
  rw [hk] at hla
  have hc : ((db.data (.pub scan.ns)).restrict (inRange scan.startKey e.1)).entries = before := by
    apply entries_restrict_lt hit
    intro key
    simp only [inRange, and_eq_true, or_eq_true, decide_eq_true_eq, List.isEmpty_iff] at hrn ⊢
    constructor
    · rintro ⟨hsr, hn | hle⟩
      · exact absurd hn hla
      · exact ⟨⟨hsr, hrn.2.imp id hle.trans⟩, hle⟩
    · rintro ⟨⟨hsr, -⟩, hle⟩
      exact ⟨hsr, .inr hle⟩
  have hg : (db.data (.pub scan.ns)).get e.1 = some e.2 := hs
  rw [hk, hdl, rangeResults, hc, hg]
  simp [storedRead, kvRead, ofStored]

section

variable (itr : ResultsItr)

theorem finalInfo_startKey : (itr.finalInfo hash).startKey = itr.rangeQueryInfo.startKey := by
  unfold finalInfo
  split <;> rfl

theorem finalInfo_endKey : (itr.finalInfo hash).endKey = itr.rangeQueryInfo.endKey := by
  unfold finalInfo
  split <;> rfl

theorem finalInfo_itrExhausted :
    (itr.finalInfo hash).itrExhausted = itr.rangeQueryInfo.itrExhausted := by
  unfold finalInfo
  split <;> rfl

end

theorem validateRangeQuery_of_results (ek : GoString)
    (hn : (scan.itr db hash).rangeQueryInfo.endKey = ek)
    (hr : (rangeResults (db.data (.pub scan.ns)) scan.startKey ek (!scan.exhausted db)).map kvRead =
      (scan.delivered db).map storedRead) :
    validateRangeQuery hash db scan.ns ((scan.itr db hash).finalInfo hash)
        newPubAndHashUpdates.publicUpdates = .ok true := by
  rw [validateRangeQuery_eq, finalInfo_startKey, finalInfo_endKey, finalInfo_itrExhausted, hn]
  apply validateResults_self newRangeQueryResultsHelper_simulation
  · rfl
  · change simulationHelper.addResults hash _ = _
    rw [← hr]
    rfl

theorem mem_restrict_of_le {ns sk key : GoString} (hs : db.getState (.pub ns) key = some vv)
    (hsr : sk ≤ key) : (key, vv) ∈ ((db.data (.pub ns)).restrict (inRange sk [])).entries := by
  rw [← get_eq_some_iff, get_restrict, if_pos]
  · exact hs
  · simp [inRange, hsr]

theorem rangeResults_nil_eq_nil_iff (ns sk : GoString) :
    rangeResults (db.data (.pub ns)) sk [] true = [] ↔ ¬ HasKeyFrom db ns sk := by
  rw [rangeResults, append_eq_nil_iff, map_eq_nil_iff]
  constructor
  · rintro ⟨hrn, hn⟩ ⟨_, hsm, hk⟩
    obtain ⟨vv, hs⟩ := isSome_iff_exists.mp hsm
    rcases hk with hstart | rfl
    · have hm := mem_restrict_of_le db hs hstart
      rw [hrn] at hm
      cases hm
    · have hg : (db.data (.pub ns)).get [] = some vv := hs
      simp [hg] at hn
  intro hno
  constructor
  · rw [eq_nil_iff_forall_not_mem]
    rintro ⟨key, vv⟩ hm
    rw [← get_eq_some_iff, get_restrict] at hm
    split_ifs at hm with hrn
    simp only [inRange, and_eq_true, decide_eq_true_eq] at hrn
    have hs : db.getState (.pub ns) key = some vv := hm
    exact hno ⟨key, by simp [hs], .inl hrn.1⟩
  · cases hg : (db.data (.pub ns)).get [] with
    | none => rfl
    | some vv =>
      have hs : db.getState (.pub ns) [] = some vv := hg
      exact absurd ⟨[], by simp [hs], .inr rfl⟩ hno

theorem delivered_of_not_hasKeyFrom (hno : ¬ HasKeyFrom db scan.ns scan.startKey) :
    scan.delivered db = [] := by
  rw [eq_nil_iff_forall_not_mem]
  rintro ⟨key, _⟩ hmem
  obtain ⟨hs, hrn⟩ := (mem_items_iff db).mp (mem_of_mem_take hmem)
  simp only [inRange, and_eq_true, decide_eq_true_eq] at hrn
  exact hno ⟨key, by simp [hs], .inl hrn.1⟩

theorem not_validateRangeQuery_of_hasKeyFrom (hop : scan.exhausted db = false)
    (hla : scan.lastKey db = []) (hk : HasKeyFrom db scan.ns scan.startKey) :
    validateRangeQuery hash db scan.ns ((scan.itr db hash).finalInfo hash)
        newPubAndHashUpdates.publicUpdates ≠ .ok true := by
  have hbn : scan.advanced ≤ (scan.items db).length := by
    simpa [exhausted] using hop
  have hn : (scan.itr db hash).rangeQueryInfo.endKey = [] := by
    simp [itr, hop, hla]
  have hx : (scan.itr db hash).rangeQueryInfo.itrExhausted =
      false := hop
  have hr := mt (rangeResults_nil_eq_nil_iff db scan.ns scan.startKey).mp (not_not.mpr hk)
  rw [validateRangeQuery_eq, finalInfo_startKey, finalInfo_endKey, finalInfo_itrExhausted, hn, hx]
  change validateResults _ _ (rangeResults _ scan.startKey [] true) ≠ _
  intro hok
  rcases Nat.eq_zero_or_pos scan.advanced with hzero | hpos
  · have hdl : scan.delivered db = [] := by simp [delivered, hzero]
    have hrd : ((scan.itr db hash).finalInfo hash).readsInfo = .unset := by
      unfold finalInfo itr
      rw [hdl]
      rfl
    rw [hrd] at hok
    exact hr (length_eq_zero_iff.mp (length_eq_of_validateRawReads hok).symm)
  obtain ⟨-, vv, hdl, hm⟩ := delivered_of_lastKey_nil db hpos hbn hla
  have hrd : ((scan.itr db hash).finalInfo hash).readsInfo = .rawReads [storedRead ([], vv)] := by
    unfold finalInfo itr
    rw [hdl]
    rfl
  rw [hrd] at hok
  have hl := length_eq_of_validateRawReads hok
  obtain ⟨hs, hrn⟩ := (mem_items_iff db).mp hm
  simp only [inRange, and_eq_true, decide_eq_true_eq] at hrn
  have hg : (db.data (.pub scan.ns)).get [] = some vv := hs
  have hinr := length_pos_of_mem (mem_restrict_of_le db hs hrn.1)
  rw [rangeResults, length_append, length_map, hg] at hl
  simp only [ReadsInfo.kvReads, length_singleton, if_true, map_some, toList_some] at hl
  omega

theorem validateRangeQuery_iff (scan : Scan) :
    validateRangeQuery hash db scan.ns ((scan.itr db hash).finalInfo hash)
        newPubAndHashUpdates.publicUpdates = .ok true ↔
      ¬ OpenEnded db scan.ns (scan.itr db hash).rangeQueryInfo := by
  cases hx : scan.exhausted db with
  | true =>
    have hln : (scan.items db).length < scan.advanced := by
      simpa [exhausted] using hx
    refine iff_of_true (validateRangeQuery_of_results db hash scan.endKey ?_ ?_) ?_
    · simp [itr, hx]
    · rw [hx, delivered, take_of_length_le hln.le]
      simp [rangeResults, items, getStateRangeScanIterator, Function.comp_def, ofStored, kvRead,
        storedRead]
    · rintro ⟨hop, -⟩
      simp [itr, hx] at hop
  | false =>
    have hbn : scan.advanced ≤ (scan.items db).length := by
      simpa [exhausted] using hx
    by_cases hla : scan.lastKey db = []
    · have hop : OpenEnded db scan.ns (scan.itr db hash).rangeQueryInfo ↔
          HasKeyFrom db scan.ns scan.startKey := by
        simp [OpenEnded, itr, hx, hla]
      rw [hop]
      refine ⟨fun hok hk => not_validateRangeQuery_of_hasKeyFrom db
        hash hx hla hk hok, fun hno => ?_⟩
      apply validateRangeQuery_of_results db hash []
      · simp [itr, hx, hla]
      rw [hx]
      change (rangeResults _ _ [] true).map _ = _
      rw [(rangeResults_nil_eq_nil_iff db scan.ns scan.startKey).mpr hno,
        delivered_of_not_hasKeyFrom db hno]
      rfl
    · have hp : 0 < scan.advanced := by
        by_contra hzero
        exact hla (by simp [lastKey, delivered, Nat.eq_zero_of_not_pos hzero])
      refine iff_of_true (validateRangeQuery_of_results db hash (scan.lastKey db) ?_ ?_) ?_
      · simp [itr, hx]
      · rw [hx]
        exact rangeResults_lastKey db hp hbn hla
      · rintro ⟨-, hn, -⟩
        simp [itr, hx, hla] at hn

end Scan

end FabricSequencer
