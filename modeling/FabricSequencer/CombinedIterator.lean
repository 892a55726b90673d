import FabricSequencer.StateDatabase

/-!
# Range scans over the committed state and the updates of a block

`combinedIterator` walks the committed keys and the updated keys of a range
side by side, skips deleted keys and, if asked to, serves the end key after
the range.  What it delivers is the range in the state that the updates lead
to.
-/

namespace FabricSequencer

open SortedMap List Update

/-- An item of a `statedb.ResultsIterator`; the value of a deleted key is
nil. -/
structure VersionedKV where
  key : GoString
  value : Option Bytes
  metadata : Option Bytes
  version : Height
deriving DecidableEq

def VersionedKV.ofStored (entry : GoString × VersionedValue) : VersionedKV where
  key := entry.1
  value := some entry.2.value
  metadata := entry.2.metadata
  version := entry.2.version

def VersionedKV.ofUpdate (entry : GoString × Update) : VersionedKV where
  key := entry.1
  value := entry.2.value
  metadata := entry.2.metadata
  version := entry.2.version

/-- `sort.SearchStrings`: the first position whose key is not smaller. -/
def searchStrings (sortedKeys : List GoString) (key : GoString) : ℕ :=
  (sortedKeys.takeWhile fun other => other < key).length

/-- What `newNsIterator` delivers. -/
def newNsIterator (nsUpdates : SortedMap GoString Update)
    (startKey endKey : GoString) : List (GoString × Update) :=
  let sortedKeys := nsUpdates.entries.map Prod.fst
  let nextIndex :=
    if startKey = [] then 0 else searchStrings sortedKeys startKey
  let lastIndex :=
    if endKey = [] then sortedKeys.length else searchStrings sortedKeys endKey
  (nsUpdates.entries.take lastIndex).drop nextIndex

structure CombinedIterator where
  ns : GoString
  db : DB
  updates : UpdateBatch
  endKey : GoString
  includeEndKey : Bool
  dbItems : List (GoString × VersionedValue)
  updatesItems : List (GoString × Update)
  endKeyServed : Bool

def newCombinedIterator (db : DB) (updates : UpdateBatch)
    (ns startKey endKey : GoString) (includeEndKey : Bool) : CombinedIterator where
  ns := ns
  db := db
  updates := updates
  endKey := endKey
  includeEndKey := includeEndKey
  dbItems := db.getStateRangeScanIterator (.pub ns) startKey endKey
  updatesItems := newNsIterator (updates.nsUpdates ns) startKey endKey
  endKeyServed := false

namespace CombinedIterator

variable (itr : CombinedIterator)

def endKeyValue : Option (Option Bytes × Height) :=
  match itr.updates.getUpdate itr.ns itr.endKey with
  | some vv => some (vv.value, vv.version)
  | none =>
    (itr.db.getState (.pub itr.ns) itr.endKey).map fun vv =>
      (some vv.value, vv.version)

def serveEndKeyIfNeeded : Option VersionedKV × CombinedIterator :=
  if !itr.includeEndKey || itr.endKeyServed then (none, itr)
  else
    let served := { itr with endKeyServed := true }
    match itr.endKeyValue with
    | none => (none, served)
    | some (value, version) =>
      if value = none then (none, served)
      else
        (some { key := itr.endKey, value := value, metadata := none,
                version := version }, served)

def select : Option (VersionedKV × CombinedIterator) :=
  match itr.dbItems, itr.updatesItems with
  | [], [] => none
  | dbItem :: dbRest, [] => some (.ofStored dbItem, { itr with dbItems := dbRest })
  | [], updatesItem :: updatesRest =>
    some (.ofUpdate updatesItem, { itr with updatesItems := updatesRest })
  | dbItem :: dbRest, updatesItem :: updatesRest =>
    if dbItem.1 < updatesItem.1 then
      some (.ofStored dbItem, { itr with dbItems := dbRest })
    else if dbItem.1 = updatesItem.1 then
      some (.ofUpdate updatesItem,
        { itr with dbItems := dbRest, updatesItems := updatesRest })
    else
      some (.ofUpdate updatesItem, { itr with updatesItems := updatesRest })

def remaining : ℕ := itr.dbItems.length + itr.updatesItems.length

/-- `Next`, which calls itself after a deleted key. -/
def nextWith : ℕ → CombinedIterator → Option VersionedKV × CombinedIterator
  | 0, itr => (none, itr)
  | fuel + 1, itr =>
    match itr.select with
    | none => itr.serveEndKeyIfNeeded
    | some (selectedItem, moved) =>
      if selectedItem.value = none then nextWith fuel moved
      else (some selectedItem, moved)

def next : Option VersionedKV × CombinedIterator :=
  nextWith (itr.remaining + 1) itr

def resultsWith : ℕ → CombinedIterator → List VersionedKV
  | 0, _ => []
  | fuel + 1, itr =>
    match itr.next with
    | (none, _) => []
    | (some item, moved) => item :: resultsWith fuel moved

/-- Everything `Next` delivers before it returns nil. -/
def results : List VersionedKV := resultsWith (itr.remaining + 2) itr

/-! ## What the iterator delivers -/

def merged : List (GoString × VersionedValue) :=
  SortedMap.overlayEntries Update.resolve itr.dbItems itr.updatesItems

structure SameEnd (first second : CombinedIterator) : Prop where
  ns : second.ns = first.ns
  db : second.db = first.db
  updates : second.updates = first.updates
  endKey : second.endKey = first.endKey
  includeEndKey : second.includeEndKey = first.includeEndKey
  endKeyServed : second.endKeyServed = first.endKeyServed

theorem SameEnd.refl : SameEnd itr itr := ⟨rfl, rfl, rfl, rfl, rfl, rfl⟩

theorem SameEnd.trans {first b third : CombinedIterator}
    (hf : SameEnd first b) (hs : SameEnd b third) : SameEnd first third where
  ns := hs.ns.trans hf.ns
  db := hs.db.trans hf.db
  updates := hs.updates.trans hf.updates
  endKey := hs.endKey.trans hf.endKey
  includeEndKey := hs.includeEndKey.trans hf.includeEndKey
  endKeyServed := hs.endKeyServed.trans hf.endKeyServed

variable {itr : CombinedIterator}

theorem select_eq_none (hs : itr.select = none) : itr.merged = [] := by
  unfold select at hs
  split at hs
  next hdb hu =>
    simp [merged, hdb, hu, overlayEntries]
  · cases hs
  · cases hs
  · split_ifs at hs

theorem select_eq_some {itr moved : CombinedIterator} {it : VersionedKV}
    (hs : itr.select = some (it, moved)) :
    SameEnd itr moved ∧ moved.remaining < itr.remaining ∧
      ((it.value = none ∧ itr.merged = moved.merged) ∨
        ∃ e, it = .ofStored e ∧ itr.merged = e :: moved.merged) := by
  have hu : ∀ (e : GoString × Update) (rest : List (GoString × VersionedValue)),
      ((VersionedKV.ofUpdate e).value = none ∧ emit resolve e rest = rest) ∨
        ∃ sd, VersionedKV.ofUpdate e = .ofStored sd ∧ emit resolve e rest = sd :: rest := by
    rintro ⟨key, update⟩ _
    cases update with
    | put value md ver => exact .inr ⟨(key, ⟨value, md, ver⟩), rfl, rfl⟩
    | delete => exact .inl ⟨rfl, rfl⟩
  unfold select at hs
  split at hs
  · cases hs
  next dbItem _ hdb hup =>
    simp only [Option.some.injEq, Prod.mk.injEq] at hs
    rcases hs with ⟨rfl, rfl⟩
    refine ⟨⟨rfl, rfl, rfl, rfl, rfl, rfl⟩, by simp [remaining, hdb], .inr ⟨dbItem, rfl, ?_⟩⟩
    simp [merged, hdb, hup, overlayEntries]
  next hdb hup =>
    simp only [Option.some.injEq, Prod.mk.injEq] at hs
    rcases hs with ⟨rfl, rfl⟩
    refine ⟨⟨rfl, rfl, rfl, rfl, rfl, rfl⟩, by simp [remaining, hup], ?_⟩
    simp only [merged, hdb, hup, overlayEntries]
    exact hu _ _
  rename_i dbItem dbRest updatesItem updatesRest hdb hup
  split_ifs at hs with hless heq
  all_goals
    simp only [Option.some.injEq, Prod.mk.injEq] at hs
    rcases hs with ⟨rfl, rfl⟩
  · refine ⟨⟨rfl, rfl, rfl, rfl, rfl, rfl⟩, by simp [remaining, hdb], .inr ⟨dbItem, rfl, ?_⟩⟩
    simp [merged, hdb, hup, overlayEntries, hless]
  · refine ⟨⟨rfl, rfl, rfl, rfl, rfl, rfl⟩, by simp [remaining, hdb, hup]; omega, ?_⟩
    simp only [merged, hdb, hup, overlayEntries, if_neg hless, if_pos heq]
    exact hu _ _
  · refine ⟨⟨rfl, rfl, rfl, rfl, rfl, rfl⟩, by simp [remaining, hup], ?_⟩
    simp only [merged, hdb, hup, overlayEntries, if_neg hless, if_neg heq]
    exact hu _ _

theorem SameEnd.serveEndKeyIfNeeded_fst {first b : CombinedIterator} (heq : SameEnd first b) :
    b.serveEndKeyIfNeeded.1 = first.serveEndKeyIfNeeded.1 := by
  have hval : b.endKeyValue = first.endKeyValue := by
    simp only [endKeyValue, heq.ns, heq.db, heq.updates, heq.endKey]
  unfold serveEndKeyIfNeeded
  rw [heq.includeEndKey, heq.endKeyServed, hval, heq.endKey]
  split_ifs
  · rfl
  cases first.endKeyValue with
  | none => rfl
  | some =>
    dsimp only
    split_ifs <;> rfl

/-- With enough fuel `Next` skips deleted keys up to the first merged item, or
serves the end key if there is none. -/
theorem nextWith_spec {fuel : ℕ} (itr : CombinedIterator) (hfl : itr.remaining < fuel) :
    (itr.merged = [] ∧ ∃ la, SameEnd itr la ∧ la.select = none ∧
        nextWith fuel itr = la.serveEndKeyIfNeeded) ∨
      ∃ e moved, SameEnd itr moved ∧ moved.remaining < itr.remaining ∧
        nextWith fuel itr = (some (.ofStored e), moved) ∧
        itr.merged = e :: moved.merged := by
  induction fuel generalizing itr with
  | zero => omega
  | succ _ ih =>
    simp only [nextWith]
    cases hs : itr.select with
    | none => exact .inl ⟨select_eq_none hs, itr, .refl itr, hs, rfl⟩
    | some r =>
      rcases r with ⟨it, moved⟩
      obtain ⟨heq, hle, hit⟩ := select_eq_some hs
      rcases hit with ⟨hd, hm⟩ | ⟨e, he, hm⟩
      · simp only [if_pos hd]
        rcases ih moved (by omega) with ⟨hn, la, hla, hno, hnx⟩ | ⟨e, post, haf, hfw, hnx, hrs⟩
        · exact .inl ⟨hm.trans hn, la, heq.trans hla, hno, hnx⟩
        · exact .inr ⟨e, post, heq.trans haf, hfw.trans hle, hnx, hm.trans hrs⟩
      · have hval : ¬ it.value = none := by
          simp [he, VersionedKV.ofStored]
        simp only [if_neg hval]
        exact .inr ⟨e, moved, heq, hle, by rw [he], hm⟩

theorem serveEndKeyIfNeeded_of_done (hdo : itr.includeEndKey = false ∨ itr.endKeyServed = true) :
    itr.serveEndKeyIfNeeded = (none, itr) := by
  unfold serveEndKeyIfNeeded
  rw [if_pos]
  simpa using hdo

theorem next_after_serve (hs : itr.select = none) : itr.serveEndKeyIfNeeded.2.next.1 = none := by
  have hkp : itr.serveEndKeyIfNeeded.2.select = none ∧
      (itr.serveEndKeyIfNeeded.2.includeEndKey = false ∨
        itr.serveEndKeyIfNeeded.2.endKeyServed = true) := by
    unfold serveEndKeyIfNeeded
    split_ifs with hskip
    · refine ⟨hs, ?_⟩
      simpa using hskip
    have hr : ({ itr with endKeyServed := true } : CombinedIterator).select = none := by
      unfold select at hs ⊢
      split at hs <;> simp_all
      split_ifs at hs
    cases itr.endKeyValue with
    | none => exact ⟨hr, .inr rfl⟩
    | some =>
      dsimp only
      split_ifs <;> exact ⟨hr, .inr rfl⟩
  unfold next
  simp only [nextWith, hkp.1]
  rw [serveEndKeyIfNeeded_of_done hkp.2]

theorem resultsWith_eq {fuel : ℕ} (itr : CombinedIterator) (hfl : itr.remaining + 1 < fuel) :
    resultsWith fuel itr = itr.merged.map .ofStored ++ itr.serveEndKeyIfNeeded.1.toList := by
  induction fuel generalizing itr with
  | zero => omega
  | succ fuel ih =>
    simp only [resultsWith, next]
    rcases nextWith_spec itr (Nat.lt_succ_self itr.remaining) with
      ⟨hn, la, hla, hno, hnx⟩ | ⟨e, moved, heq, hle, hnx, hm⟩
    · rw [hnx, hn, ← hla.serveEndKeyIfNeeded_fst]
      have haf := next_after_serve hno
      rcases hsr : la.serveEndKeyIfNeeded with ⟨it, served⟩
      rw [hsr] at haf
      cases it with
      | none => rfl
      | some =>
        have hrs : resultsWith fuel served = [] := by
          cases fuel with
          | zero => rfl
          | succ =>
            simp only [resultsWith]
            rcases hag : served.next with ⟨other, _⟩
            rw [hag] at haf
            simp only at haf
            subst other
            rfl
        simp [hrs]
    · rw [hnx, hm]
      have hrs := ih moved (by omega)
      rw [heq.serveEndKeyIfNeeded_fst] at hrs
      simp [hrs]

theorem results_eq (itr : CombinedIterator) :
    itr.results = itr.merged.map .ofStored ++ itr.serveEndKeyIfNeeded.1.toList :=
  resultsWith_eq itr (Nat.lt_succ_self _)

theorem searchStrings_cons_of_lt {head key : GoString} (ks : List GoString) (hle : head < key) :
    searchStrings (head :: ks) key = searchStrings ks key + 1 := by
  simp [searchStrings, hle]

theorem searchStrings_cons_of_not_lt {head key : GoString}
    (ks : List GoString) (hle : ¬ head < key) : searchStrings (head :: ks) key = 0 := by
  simp [searchStrings, hle]

variable {es : List (GoString × Update)}

theorem take_searchStrings (hsr : es.Pairwise fun a b => a.1 < b.1) (key : GoString) :
    es.take (searchStrings (es.map Prod.fst) key) = es.filter fun e => e.1 < key := by
  induction es with
  | nil => rfl
  | cons head _ ih =>
    have htl := (pairwise_cons.mp hsr).2
    rw [map_cons]
    by_cases hle : head.1 < key
    · rw [searchStrings_cons_of_lt _ hle, take_succ_cons, ih htl,
        filter_cons_of_pos (by simpa using hle)]
    rw [searchStrings_cons_of_not_lt _ hle, take_zero, eq_comm, filter_eq_nil_iff]
    intro e hm he
    have hent : e.1 < key := by simpa using he
    rcases mem_cons.mp hm with rfl | hlat
    · exact hle hent
    · exact hle (((pairwise_cons.mp hsr).1 e hlat).trans hent)

theorem drop_searchStrings (hsr : es.Pairwise fun a b => a.1 < b.1) (key : GoString)
    (below : GoString → Bool) (hlt : ∀ first snd, first < snd → below snd → below first) :
    (es.filter fun e => below e.1).drop (searchStrings (es.map Prod.fst) key) =
      es.filter fun e => decide (key ≤ e.1) && below e.1 := by
  induction es with
  | nil => rfl
  | cons head es ih =>
    have hhd := (pairwise_cons.mp hsr).1
    have htl := (pairwise_cons.mp hsr).2
    rw [map_cons]
    by_cases hle : head.1 < key
    · have hrg : ((head :: es).filter fun e =>
          decide (key ≤ e.1) && below e.1) =
          es.filter fun e =>
            decide (key ≤ e.1) && below e.1 :=
        filter_cons_of_neg (by simp [not_le.mpr hle])
      rw [searchStrings_cons_of_lt _ hle, hrg]
      by_cases hkp : below head.1 = true
      · rw [filter_cons_of_pos (by simpa using hkp), drop_succ_cons, ih htl]
      have hno : (es.filter fun e => below e.1) = [] := by
        rw [filter_eq_nil_iff]
        intro e hm he
        exact hkp (hlt _ _ (hhd e hm) he)
      have hbo := ih htl
      rw [hno, drop_nil] at hbo
      rw [filter_cons_of_neg (by simpa using hkp), hno, drop_nil, ← hbo]
    · rw [searchStrings_cons_of_not_lt _ hle, drop_zero]
      apply filter_congr
      intro e hm
      have hst : key ≤ e.1 := by
        rcases mem_cons.mp hm with rfl | hlat
        · exact not_lt.mp hle
        · exact (not_lt.mp hle).trans (hhd e hlat).le
      simp [hst]

theorem newNsIterator_eq (nus : SortedMap GoString Update) (sk ek : GoString) :
    newNsIterator nus sk ek = (nus.restrict (DB.inRange sk ek)).entries := by
  have hn : nus.entries.take
      (if ek = [] then (nus.entries.map Prod.fst).length
        else searchStrings (nus.entries.map Prod.fst) ek) =
      nus.entries.filter fun e =>
        ek.isEmpty || decide (e.1 < ek) := by
    split_ifs with hnil
    · subst ek
      simp
    · rw [take_searchStrings nus.sorted]
      apply filter_congr
      intro _ _
      simp [hnil]
  have hsr : (if sk = [] then 0
      else searchStrings (nus.entries.map Prod.fst) sk) =
      searchStrings (nus.entries.map Prod.fst) sk := by
    split_ifs with hnil
    · subst sk
      cases nus.entries with
      | nil => rfl
      | cons => rw [map_cons, searchStrings_cons_of_not_lt _ (by simp)]
    · rfl
  unfold newNsIterator
  simp only [hn, hsr, restrict, DB.inRange]
  apply drop_searchStrings nus.sorted sk fun key => ek.isEmpty || decide (key < ek)
  intro _ _ hle hs
  simp only [Bool.or_eq_true, decide_eq_true_eq] at hs ⊢
  rcases hs with hnil | hs
  · exact .inl hnil
  · exact .inr (hle.trans hs)

end CombinedIterator

def rangeResults (state : SortedMap GoString VersionedValue)
    (startKey endKey : GoString) (includeEndKey : Bool) : List VersionedKV :=
  (state.restrict (DB.inRange startKey endKey)).entries.map .ofStored ++
    if includeEndKey then
      ((state.get endKey).map fun vv =>
        ({ key := endKey, value := some vv.value, metadata := none,
           version := vv.version } : VersionedKV)).toList
    else []

open CombinedIterator

theorem newCombinedIterator_results (db : DB) (us : UpdateBatch)
    (ns sk ek : GoString) (includeEndKey : Bool) :
    (newCombinedIterator db us ns sk ek includeEndKey).results =
      rangeResults (overlay resolve (db.data (.pub ns)) (us.nsUpdates ns)) sk ek includeEndKey := by
  rw [results_eq, rangeResults]
  congr 1
  · simp only [merged, newCombinedIterator, newNsIterator_eq, DB.getStateRangeScanIterator]
    rw [overlayEntries_eq, restrict_overlay]
  cases includeEndKey with
  | false => rfl
  | true =>
    rw [get_overlay]
    simp only [serveEndKeyIfNeeded, newCombinedIterator,
      endKeyValue, UpdateBatch.getUpdate, DB.getState]
    cases hu : (us.nsUpdates ns).get ek with
    | none => cases (db.data (.pub ns)).get ek <;> simp
    | some vv =>
      cases vv <;>
        simp [value, version, resolve]

end FabricSequencer
