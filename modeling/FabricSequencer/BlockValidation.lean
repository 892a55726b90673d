import FabricSequencer.RangeQueryFailure
import FabricSequencer.SerialWrites

/-!
# Validation of a block

`validateAndPrepareBatch` validates the transactions of a block in order and
collects the updates of the valid ones.  An error or a panic on one transaction
ends the validation of the whole block.
-/

namespace FabricSequencer

open KeyOps List

structure Transaction where
  indexInBlock : ℕ
  rwset : TxRwSet
  containsPostOrderWrites : Bool

structure Block where
  num : ℕ
  txs : List Transaction

/-- `pvtdataPurgeTracker`: the version of the last purge of each hashed key. -/
abbrev PvtdataPurgeTracker := SortedMap CompositeKey Height

namespace PvtdataPurgeTracker

def updateWrite (ns coll : GoString) (version : Height)
    (p : PvtdataPurgeTracker) (hashedWrite : KVWriteHash) :
    PvtdataPurgeTracker :=
  if hashedWrite.isPurge then p.insert ⟨ns, coll, hashedWrite.keyHash⟩ version
  else p

def update (p : PvtdataPurgeTracker) (rwset : TxRwSet) (version : Height) : PvtdataPurgeTracker :=
  rwset.nsRwSets.foldl (fun p nsRwSet =>
    nsRwSet.collHashedRwSets.foldl (fun p coll =>
      coll.hashedRwSet.hashedWrites.foldl
        (updateWrite nsRwSet.nameSpace coll.collectionName version) p) p) p

end PvtdataPurgeTracker

structure Prepared where
  updates : PublicAndHashUpdates
  purgeTracker : PvtdataPurgeTracker

variable (hashFunc hash : Bytes → Bytes)

def validateEndorserTX (db : DB) (txRWSet : TxRwSet)
    (doMVCCValidation : Bool) (updates : PublicAndHashUpdates) :
    Outcome TxValidationCode :=
  if doMVCCValidation then validateTx hashFunc db txRWSet updates
  else .ok .valid

/-- One turn of the loop of `validateAndPrepareBatch`. -/
def prepareNext (db : DB) (num : ℕ) (doMVCCValidation : Bool)
    (prepared : Prepared) (tx : Transaction) : Outcome (Prepared × TxValidationCode) := do
  let validationCode ← validateEndorserTX hashFunc db tx.rwset doMVCCValidation prepared.updates
  if validationCode = .valid then
    let committingTxHeight : Height := ⟨num, tx.indexInBlock⟩
    let updates ← applyWriteSet prepared.updates tx.rwset committingTxHeight db
      tx.containsPostOrderWrites
    let purgeTracker := prepared.purgeTracker.update tx.rwset committingTxHeight
    pure ({ updates := updates, purgeTracker := purgeTracker }, validationCode)
  else pure (prepared, validationCode)

def prepareAll (hashFunc : Bytes → Bytes) (db : DB) (num : ℕ) (doMVCCValidation : Bool) :
    Prepared → List Transaction → Outcome (Prepared × List TxValidationCode)
  | prepared, [] => .ok (prepared, [])
  | prepared, tx :: txs => do
      let (next, code) ← prepareNext hashFunc db num doMVCCValidation prepared tx
      let (final, codes) ← prepareAll hashFunc db num doMVCCValidation next txs
      pure (final, code :: codes)

def newPrepared : Prepared where
  updates := newPubAndHashUpdates
  purgeTracker := SortedMap.empty

/-- The updates and purges, with the codes that are set in the transactions. -/
def validateAndPrepareBatch (db : DB) (blk : Block)
    (doMVCCValidation : Bool) : Outcome (Prepared × List TxValidationCode) :=
  prepareAll hashFunc db blk.num doMVCCValidation newPrepared blk.txs

def EndsAt {α : Type} (passes ends : α → Prop) (items : List α) : Prop :=
  ∃ before item after, items = before ++ item :: after ∧
    (∀ passed ∈ before, passes passed) ∧ ends item

theorem not_endsAt_nil {α : Type} {passes ends : α → Prop} : ¬ EndsAt passes ends [] := by
  rintro ⟨_, _, _, hsp, -⟩
  simp at hsp

theorem endsAt_cons {α : Type} {passes ends : α → Prop} {it : α} {items : List α} :
    EndsAt passes ends (it :: items) ↔ ends it ∨ passes it ∧ EndsAt passes ends items := by
  constructor
  · rintro ⟨pre, la, post, hsp, hp, hla⟩
    cases pre with
    | nil =>
      cases hsp
      exact .inl hla
    | cons _ pre =>
      cases hsp
      rw [forall_mem_cons] at hp
      exact .inr ⟨hp.1, pre, la, post, rfl, hp.2, hla⟩
  · rintro (hit | ⟨hit, pre, la, post, rfl, hp, hla⟩)
    · exact ⟨[], it, items, rfl, by simp, hit⟩
    · exact ⟨it :: pre, la, post, rfl, forall_mem_cons.mpr ⟨hit, hp⟩, hla⟩

variable {hashFunc hash : Bytes → Bytes} {db : DB} {updates : PublicAndHashUpdates}

def NsAborts (hashFunc : Bytes → Bytes) (db : DB)
    (updates : PublicAndHashUpdates) (nsRWSet : NsRwSet) : Prop :=
  validateReadSet db nsRWSet.nameSpace updates.publicUpdates nsRWSet.kvRwSet.reads = true ∧
    EndsAt
      (fun rqi => validateRangeQuery hashFunc db nsRWSet.nameSpace rqi
        updates.publicUpdates = .ok true)
      (RangeQueryAborts hashFunc (db.applyUpdates updates) nsRWSet.nameSpace)
      nsRWSet.kvRwSet.rangeQueriesInfo

def ReadsAbort (hashFunc : Bytes → Bytes) (db : DB)
    (updates : PublicAndHashUpdates) (rwset : TxRwSet) : Prop :=
  EndsAt (NsPasses hashFunc db updates) (NsAborts hashFunc db updates) rwset.nsRwSets

theorem validateRangeQueries_fails_iff (ns : GoString) (rangeQueriesInfo : List RangeQueryInfo) :
    (∃ failure, validateRangeQueries hash db ns updates.publicUpdates
        rangeQueriesInfo = .error failure) ↔
      EndsAt (fun rqi => validateRangeQuery hash db ns rqi updates.publicUpdates = .ok true)
        (RangeQueryAborts hash (db.applyUpdates updates) ns)
        rangeQueriesInfo := by
  induction rangeQueriesInfo with
  | nil => simp [validateRangeQueries, not_endsAt_nil]
  | cons rqi _ ih =>
    rw [endsAt_cons, ← ih, ← validateRangeQuery_fails_iff, validateRangeQueries]
    rcases validateRangeQuery hash db ns rqi updates.publicUpdates with failure | (_ | _) <;> simp

theorem validateNs_fails_iff (nsRWSet : NsRwSet) :
    (∃ failure, validateNs hash db updates nsRWSet = .error failure) ↔
      NsAborts hash db updates nsRWSet := by
  rw [validateNs_spec.2.2, validateRangeQueries_fails_iff]
  rfl

theorem validateTx_fails_iff (rwset : TxRwSet) :
    (∃ failure, validateTx hash db rwset updates = .error failure) ↔
      ReadsAbort hash db updates rwset := by
  unfold validateTx ReadsAbort
  induction rwset.nsRwSets with
  | nil => simp [validateNsRwSets, not_endsAt_nil]
  | cons nsRWSet _ ih =>
    rw [endsAt_cons, ← ih, ← validateNs_fails_iff, ← validateNs_eq_none_iff, validateNsRwSets]
    rcases validateNs hash db updates nsRWSet with failure | (_ | code) <;> simp

def KeyWrite.flag : KeyWrite → ℕ
  | .upsert _ => upsertVal
  | .delete => keyDelete
  | .metadataUpdate _ => FabricSequencer.metadataUpdate
  | .metadataDelete => FabricSequencer.metadataDelete

variable (writes : List KeyWrite)

def writesFlag : ℕ := uint8 (writes.map KeyWrite.flag).sum

def SettlesValue (flag : ℕ) : Prop :=
  flag &&& upsertVal = upsertVal ∧
      (flag &&& metadataUpdate = metadataUpdate ∨ flag &&& metadataDelete = metadataDelete) ∨
    flag ||| upsertVal = upsertVal

variable (updates : PublicAndHashUpdates)

def WriteAborts (rwset : TxRwSet) (ck : CompositeKey) : Prop :=
  rwset.writesAt ck ≠ [] ∧ ¬ writesFlag (rwset.writesAt ck) &&& keyDelete = keyDelete ∧
    (SettlesValue (writesFlag (rwset.writesAt ck)) → ∀ value, .upsert value ∉ rwset.writesAt ck) ∧
    (¬ SettlesValue (writesFlag (rwset.writesAt ck)) →
      ∃ version, updates.updateAt ck = some (.delete version))

theorem flag_recordAll (ko : KeyOps) :
    uint8 (ko.recordAll writes).flag = uint8 (ko.flag + (writes.map KeyWrite.flag).sum) := by
  induction writes generalizing ko with
  | nil => rfl
  | cons w writes ih =>
    have hstep : (ko.record w).flag = uint8 (ko.flag + w.flag) := by
      cases w <;> rfl
    have ha : ko.recordAll (w :: writes) = (ko.record w).recordAll writes := rfl
    rw [ha, ih, hstep, map_cons, sum_cons, ← Nat.add_assoc]
    exact Nat.mod_add_mod _ _ _

theorem flag_recordAll_lt {ko : KeyOps}
    (hfl : ko.flag < 2 ^ 8) : (ko.recordAll writes).flag < 2 ^ 8 := by
  induction writes generalizing ko with
  | nil => exact hfl
  | cons w _ ih =>
    apply ih
    cases w <;> exact Nat.mod_lt _ (by norm_num)

theorem flag_newKeyOps_recordAll : (newKeyOps.recordAll writes).flag = writesFlag writes := by
  have hlt := flag_recordAll_lt writes (show newKeyOps.flag < 2 ^ 8 by decide)
  have hfl := flag_recordAll writes newKeyOps
  rw [uint8, Nat.mod_eq_of_lt hlt] at hfl
  rw [hfl, writesFlag]
  congr 1
  exact Nat.zero_add _

theorem value_recordAll_eq_none_iff (ko : KeyOps) :
    (ko.recordAll writes).value = none ↔ ko.value = none ∧ ∀ value, .upsert value ∉ writes := by
  induction writes generalizing ko with
  | nil => simp [recordAll]
  | cons w writes ih =>
    have ha : ko.recordAll (w :: writes) = (ko.record w).recordAll writes := rfl
    rw [ha, ih]
    cases w with
    | upsert value =>
      have hm : ¬ ∀ other, .upsert other ∉ .upsert value :: writes := by
        intro hno
        exact hno value mem_cons_self
      simp only [hm, and_false, iff_false, record]
      simp
    | delete | metadataUpdate | metadataDelete => simp [record]

theorem settlesValue_iff (ko : KeyOps) :
    SettlesValue ko.flag ↔ (ko.isUpsertAndMetadataUpdate || ko.isOnlyUpsert) = true := by
  unfold SettlesValue isUpsertAndMetadataUpdate isOnlyUpsert
  split_ifs with hupsert <;> simp_all

theorem isDelete_newKeyOps_iff :
    (newKeyOps.recordAll writes).isDelete = true ↔ writesFlag writes &&& keyDelete = keyDelete := by
  rw [← flag_newKeyOps_recordAll]
  exact beq_iff_eq

theorem mergedUpdate_fails_iff (db : DB) (txHeight : Height) (rws : TxRwSet) (ck : CompositeKey) :
    (rws.writesAt ck ≠ [] ∧ mergedUpdate updates db txHeight ck (rws.writesAt ck) = some none) ↔
      WriteAborts updates rws ck := by
  have hval := value_recordAll_eq_none_iff (rws.writesAt ck) newKeyOps
  unfold WriteAborts
  rw [← isDelete_newKeyOps_iff, ← flag_newKeyOps_recordAll, settlesValue_iff]
  rw [show newKeyOps.value = none from rfl, eq_self_iff_true, true_and] at hval
  rw [← hval, mergedUpdate, mergeLatest, retrieveLatestState_eq]
  generalize newKeyOps.recordAll (rws.writesAt ck) = keyops
  refine and_congr_right fun _ => ?_
  by_cases hd : keyops.isDelete = true
  · simp [hd, toUpdate]
  have hkp : ∀ value metadata,
      ({ flag := keyops.flag, value := value, metadata := metadata } :
        KeyOps).isDelete = keyops.isDelete := fun _ _ => rfl
  by_cases hbo : keyops.isUpsertAndMetadataUpdate = true
  · simp [hd, hbo, toUpdate]
  by_cases hon : keyops.isOnlyUpsert = true
  · simp [hd, hbo, hon, toUpdate, hkp]
  rcases updates.updateAt ck with _ | ⟨_, _, _⟩ | _
  · cases db.contentAt ck <;>
      simp [hd, hbo, hon, toUpdate, hkp]
  · simp [hd, hbo, hon, toUpdate, hkp, Update.value]
  · simp [hd, hbo, hon, toUpdate, hkp, Update.value]

theorem applyWriteSet_fails_iff (rws : TxRwSet) (txHeight : Height) (db : DB) (post : Bool) :
    (∃ failure, applyWriteSet updates rws txHeight db post = .error failure) ↔
      ∃ ck, WriteAborts updates rws ck := by
  have hok := applyWriteSet_isOk_iff_mergedUpdate updates rws txHeight db post
  simp only [mergedUpdate_fails_iff] at hok
  rw [← not_iff_not, not_exists, not_exists, ← hok]
  cases applyWriteSet updates rws txHeight db post <;>
    simp

/-! ## Whole blocks -/

/-- A transaction ends the validation of its block: a range query it is asked
about fails, or it is valid and its writes fail. -/
def Aborts (hashFunc : Bytes → Bytes) (db : DB)
    (updates : PublicAndHashUpdates) (rwset : TxRwSet) : Prop :=
  ReadsAbort hashFunc db updates rwset ∨
    (∀ nsRWSet ∈ rwset.nsRwSets, NsPasses hashFunc db updates nsRWSet) ∧
      ∃ ck, WriteAborts updates rwset ck

theorem prepareNext_fails_iff (num : ℕ) (prepared : Prepared) (tx : Transaction) :
    (∃ failure, prepareNext hash db num true prepared tx = .error failure) ↔
      Aborts hash db prepared.updates tx.rwset := by
  unfold Aborts prepareNext validateEndorserTX
  rw [← validateTx_fails_iff, ← validateNsRwSets_valid_iff,
    ← applyWriteSet_fails_iff prepared.updates tx.rwset ⟨num, tx.indexInBlock⟩
      db tx.containsPostOrderWrites]
  change _ ↔ _ ∨ validateTx hash db tx.rwset prepared.updates = _ ∧ _
  simp only [if_true]
  rcases validateTx hash db tx.rwset prepared.updates with failure | code
  · simp [bind, Except.bind]
  by_cases hcd : code = .valid
  · rcases applyWriteSet prepared.updates tx.rwset ⟨num, tx.indexInBlock⟩ db
        tx.containsPostOrderWrites with failure | updates
    · simp [hcd, bind, Except.bind]
    · simp [hcd, bind, Except.bind, pure, Except.pure]
  · simp [hcd, bind, Except.bind, pure, Except.pure]

variable {num : ℕ} {doMVCCValidation : Bool} {tx : Transaction} {prepared next : Prepared}

theorem prepareNext_invalid {code : TxValidationCode}
    (hnx : prepareNext hash db num doMVCCValidation prepared tx =
      .ok (next, code)) (hcd : code ≠ .valid) : next = prepared := by
  unfold prepareNext at hnx
  obtain ⟨_, -, hrs⟩ := of_bind hnx
  split_ifs at hrs with hok
  · obtain ⟨_, -, hpu⟩ := of_bind hrs
    cases hpu
    exact absurd hok hcd
  · cases hrs
    rfl

theorem prepareNext_valid
    (hnx : prepareNext hash db num doMVCCValidation prepared tx = .ok (next, .valid)) :
    applyWriteSet prepared.updates tx.rwset ⟨num, tx.indexInBlock⟩ db
      tx.containsPostOrderWrites = .ok next.updates := by
  unfold prepareNext at hnx
  obtain ⟨_, -, hrs⟩ := of_bind hnx
  split_ifs at hrs with hok
  · obtain ⟨_, hu, hpu⟩ := of_bind hrs
    cases hpu
    exact hu
  · cases hrs
    exact absurd rfl hok

variable {prepared final : Prepared} {codes : List TxValidationCode} {txs : List Transaction}

theorem prepareAll_cons_eq_ok_iff :
    prepareAll hash db num doMVCCValidation prepared (tx :: txs) = .ok (final, codes) ↔
      ∃ next code rest,
        prepareNext hash db num doMVCCValidation prepared tx = .ok (next, code) ∧
          prepareAll hash db num doMVCCValidation next txs =
            .ok (final, rest) ∧ codes = code :: rest := by
  rw [prepareAll, Except.bind_eq_ok_iff]
  constructor
  · rintro ⟨⟨next, code⟩, hnx, hrest⟩
    obtain ⟨⟨_, rest⟩, ha, hpu⟩ := of_bind hrest
    cases hpu
    exact ⟨next, code, rest, hnx, ha, rfl⟩
  · rintro ⟨next, code, _, hnx, ha, rfl⟩
    exact ⟨(next, code), hnx, bind_of_ok ha rfl⟩

theorem length_prepareAll
    (ha : prepareAll hash db num doMVCCValidation prepared txs =
      .ok (final, codes)) : codes.length = txs.length := by
  induction txs generalizing prepared codes with
  | nil =>
    cases ha
    rfl
  | cons _ _ ih =>
    obtain ⟨_, _, _, -, hrs, rfl⟩ := prepareAll_cons_eq_ok_iff.mp ha
    rw [length_cons, length_cons, ih hrs]

theorem prepareAll_without {post pre : List Transaction}
    (ha : prepareAll hash db num doMVCCValidation prepared (pre ++ tx :: post) = .ok (final, codes))
    (hcd : codes[pre.length]? ≠ some .valid) :
    prepareAll hash db num doMVCCValidation prepared (pre ++ post) =
      .ok (final, codes.eraseIdx pre.length) := by
  induction pre generalizing prepared codes with
  | nil =>
    obtain ⟨_, code, _, hnx, hrs, rfl⟩ := prepareAll_cons_eq_ok_iff.mp ha
    have hn : code ≠ .valid := by simpa using hcd
    have heq := prepareNext_invalid hnx hn
    rw [heq] at hrs
    exact hrs
  | cons _ _ ih =>
    obtain ⟨next, code, _, hnx, hrs, rfl⟩ := prepareAll_cons_eq_ok_iff.mp ha
    exact prepareAll_cons_eq_ok_iff.mpr ⟨next, code, _, hnx, ih hrs (by simpa using hcd), rfl⟩

theorem prepareAll_isOk_iff (hash : Bytes → Bytes) (db : DB) (num : ℕ)
    (txs : List Transaction) (prepared : Prepared) :
    (∃ r, prepareAll hash db num true prepared txs = .ok r) ↔
      ∀ pre tx post rc codes, txs = pre ++ tx :: post →
        prepareAll hash db num true prepared pre = .ok (rc, codes) →
        ¬ Aborts hash db rc.updates tx.rwset := by
  induction txs generalizing prepared with
  | nil => simp [prepareAll]
  | cons first txs ih =>
    constructor
    · rintro ⟨⟨_, codes⟩, hall⟩ pre tx post rc _ hsp hrc
      obtain ⟨next, _, _, hnx, hrs, rfl⟩ := prepareAll_cons_eq_ok_iff.mp hall
      cases pre with
      | nil =>
        cases hsp
        cases hrc
        rw [← prepareNext_fails_iff num, hnx]
        simp
      | cons _ pre =>
        cases hsp
        obtain ⟨_, _, codes, heq, htl, rfl⟩ := prepareAll_cons_eq_ok_iff.mp hrc
        rw [hnx] at heq
        cases heq
        exact (ih next).mp ⟨_, hrs⟩ pre tx post rc codes rfl htl
    · intro hno
      have hf := hno [] first txs prepared [] rfl rfl
      rw [← prepareNext_fails_iff num] at hf
      rcases hnx : prepareNext hash db num true prepared first with failure | ⟨next, code⟩
      · exact absurd ⟨failure, hnx⟩ hf
      obtain ⟨⟨_, codes⟩, hrs⟩ := (ih next).mpr (by
        intro pre tx post rc codes hsp hrc
        exact hno (first :: pre) tx post rc (code :: codes) (by rw [hsp]; rfl)
          (prepareAll_cons_eq_ok_iff.mpr ⟨next, code, codes, hnx, hrc, rfl⟩))
      exact ⟨_, prepareAll_cons_eq_ok_iff.mpr ⟨next, code, codes, hnx, hrs, rfl⟩⟩

/-- The validation of a block returns, and a transaction that is not valid has
no part in the result for the others, exactly when no transaction aborts after
the updates of the transactions before it. -/
theorem validateAndPrepareBatch_returns_iff (hashFunc : Bytes → Bytes) (db : DB) (blk : Block) :
    (∃ prepared codes,
      validateAndPrepareBatch hashFunc db blk true = .ok (prepared, codes) ∧
        codes.length = blk.txs.length ∧
        ∀ before tx after, blk.txs = before ++ tx :: after → codes[before.length]? ≠ some .valid →
          validateAndPrepareBatch hashFunc db
              { blk with txs := before ++ after } true =
            .ok (prepared, codes.eraseIdx before.length)) ↔
      ∀ before tx after prepared codes, blk.txs = before ++ tx :: after →
        validateAndPrepareBatch hashFunc db { blk with txs := before } true =
          .ok (prepared, codes) →
        ¬ Aborts hashFunc db prepared.updates tx.rwset := by
  have his := prepareAll_isOk_iff hashFunc db blk.num blk.txs newPrepared
  constructor
  · rintro ⟨_, _, hbt, -⟩
    exact his.mp ⟨_, hbt⟩
  intro hno
  obtain ⟨⟨prepared, codes⟩, hbt⟩ := his.mpr hno
  refine ⟨prepared, codes, hbt, length_prepareAll hbt, ?_⟩
  intro _ _ _ hsp hcd
  unfold validateAndPrepareBatch
  rw [hsp] at hbt
  exact prepareAll_without hbt hcd

def degreelessTx : Transaction where
  indexInBlock := 0
  rwset := pubRwSet (ascii "cc")
    { reads := [], writes := [], metadataWrites := []
      rangeQueriesInfo :=
        [{ startKey := ascii "a", endKey := ascii "b", itrExhausted := true
           readsInfo := .readsMerkleHashes
            { maxDegree := 0, maxLevel := 0, maxLevelHashes := [] } }] }
  containsPostOrderWrites := false

def deletingTx : Transaction where
  indexInBlock := 1
  rwset := deletingRwSet
  containsPostOrderWrites := false

theorem degreeless_summary_aborts :
    validateAndPrepareBatch id emptyDB
        { num := 2, txs := [degreelessTx, deletingTx] } true =
      .error (.error "maxDegree [0] should not be less than 2 in the merkle tree") ∧
    (validateAndPrepareBatch id emptyDB
        { num := 2, txs := [deletingTx] } true).map Prod.snd =
      .ok [.valid] := by
  constructor <;> rfl

/-! ## Repeated writes of a key -/

def lastValue (writes : List KeyWrite) : Option (Option Bytes) :=
  writes.reverse.findSome? KeyWrite.value

def lastMetadata (writes : List KeyWrite) : Option (Option Bytes) :=
  writes.reverse.findSome? KeyWrite.metadata

def KeyOps.isMetadataOnly (keyops : KeyOps) : Bool :=
  !(keyops.isDelete || keyops.isUpsertAndMetadataUpdate || keyops.isOnlyUpsert)

/-- `prepareTxOps` takes the operations for these two writes; `none` is for no
write, `some none` for a deletion. -/
def KeyOps.Denotes (keyops : KeyOps) : Option (Option Bytes) → Option (Option Bytes) → Prop
  | some none, _ => keyops.isDelete = true
  | some (some value), none =>
    keyops.isDelete = false ∧ keyops.isOnlyUpsert = true ∧ keyops.value = some value
  | some (some value), some metadata =>
    keyops.isDelete = false ∧ keyops.isUpsertAndMetadataUpdate = true ∧
      keyops.value = some value ∧ keyops.metadata = metadata
  | none, metadata => keyops.isMetadataOnly = true ∧ metadata = some keyops.metadata

/-- The sum of the flags has the bits of the last writes, and no deletion of
metadata comes after an update of it. -/
def FlagsFit (writes : List KeyWrite) : Prop :=
  (writesFlag writes &&& keyDelete = keyDelete ↔ lastValue writes = some none) ∧
    (lastValue writes ≠ some none → (SettlesValue (writesFlag writes) ↔ lastValue writes ≠ none) ∧
      (lastValue writes ≠ none →
        (writesFlag writes ||| upsertVal = upsertVal ↔ lastMetadata writes = none)) ∧
      (lastMetadata writes = some none → ∀ metadata, .metadataUpdate metadata ∉ writes))

theorem recorded_newKeyOps (writes : List KeyWrite) :
    (newKeyOps.recordAll writes).value = writes.reverse.findSome? (·.value.join) ∧
      (newKeyOps.recordAll writes).metadata = writes.reverse.findSome? (·.metadata.join) := by
  induction writes using reverseRecOn with
  | nil => exact ⟨rfl, rfl⟩
  | append_singleton writes write ih =>
    have ha : newKeyOps.recordAll (writes ++ [write]) =
        (newKeyOps.recordAll writes).record write := foldl_append
    rw [ha, reverse_concat, findSome?_cons, findSome?_cons]
    cases write with
    | upsert => exact ⟨rfl, ih.2⟩
    | metadataUpdate => exact ⟨ih.1, rfl⟩
    | delete | metadataDelete => exact ih

theorem findSome?_join {α β : Type} {f : α → Option (Option β)} {l : List α} {v : β}
    (hl : l.findSome? f = some (some v)) : l.findSome? (fun a => (f a).join) = some v := by
  induction l with
  | nil => cases hl
  | cons a l ih =>
    rw [findSome?_cons] at hl ⊢
    cases ha : f a with
    | none => exact ih (by simpa [ha] using hl)
    | some => simp_all

theorem metadata_newKeyOps_iff {writes : List KeyWrite} {md : Option Bytes}
    (hla : lastMetadata writes = some md) :
    (newKeyOps.recordAll writes).metadata = md ↔
      (md = none → ∀ other, .metadataUpdate other ∉ writes) := by
  rw [(recorded_newKeyOps writes).2]
  cases md with
  | some => simp [findSome?_join hla]
  | none =>
    rw [findSome?_eq_none_iff]
    constructor
    · intro ha _ other hm
      cases ha _ (mem_reverse.mpr hm)
    · intro hno w hm
      cases w with
      | metadataUpdate other => exact absurd (mem_reverse.mp hm) (hno rfl other)
      | upsert | delete | metadataDelete => rfl

theorem not_both_of_isOnlyUpsert {ko : KeyOps} (hon : ko.isOnlyUpsert = true) :
    ko.isUpsertAndMetadataUpdate = false := by
  have hle : ko.flag ≤ ko.flag ||| upsertVal := Nat.left_le_or
  rw [beq_iff_eq.mp hon] at hle
  unfold isUpsertAndMetadataUpdate
  rcases Nat.le_one_iff_eq_zero_or_eq_one.mp hle with hflag | hflag
  · rw [hflag]
    rfl
  · rw [hflag]
    rfl

/-- The operations on a key say what its last writes do exactly when no sum of
flags is taken for another. -/
theorem denotes_lastWrites_iff (rwset : TxRwSet) (ck : CompositeKey)
    (hne : rwset.writesAt ck ≠ []) :
    (∃ keyops, (applyTxRwset SortedMap.empty rwset).get ck = some keyops ∧
      keyops.Denotes (lastValue (rwset.writesAt ck)) (lastMetadata (rwset.writesAt ck)) ∧
      (lastValue (rwset.writesAt ck) ≠ none → keyops.isMetadataOnly = false)) ↔
      FlagsFit (rwset.writesAt ck) := by
  rw [get_applyTxRwset, if_neg hne]
  simp only [Option.some.injEq, exists_eq_left']
  generalize rwset.writesAt ck = writes at *
  have hval := (recorded_newKeyOps writes).1
  have hon : (newKeyOps.recordAll writes).isOnlyUpsert = true ↔
      writesFlag writes ||| upsertVal = upsertVal := by
    rw [← flag_newKeyOps_recordAll]
    exact beq_iff_eq
  have hds := @not_both_of_isOnlyUpsert (newKeyOps.recordAll writes)
  unfold FlagsFit
  rw [← isDelete_newKeyOps_iff, ← hon, ← flag_newKeyOps_recordAll, settlesValue_iff]
  rcases hla : lastValue writes with _ | _ | value
  · obtain ⟨md, hmt⟩ := exists_metadata_of_value_none (reverse_ne_nil_iff.mpr hne) hla
    have hiff := metadata_newKeyOps_iff hmt
    rw [show lastMetadata writes = some md from hmt]
    simp only [Denotes, isMetadataOnly]
    grind
  · simp only [Denotes, isMetadataOnly]
    grind
  · rw [findSome?_join hla] at hval
    cases hmt : lastMetadata writes with
    | none =>
      simp only [Denotes, isMetadataOnly]
      grind
    | some md =>
      have hiff := metadata_newKeyOps_iff hmt
      simp only [Denotes, isMetadataOnly]
      grind

def puttingRwSet (values : List Bytes) : TxRwSet :=
  pubRwSet (ascii "cc")
    { reads := [], rangeQueriesInfo := [], metadataWrites := []
      writes := values.map fun value => { key := ascii "k", isDelete := false, value := value } }

/-- A put that a write of the empty value deletes again. -/
theorem denotes_lastWrites_deleted :
    lastValue ((puttingRwSet [[1], []]).writesAt ⟨ascii "cc", [], ascii "k"⟩) = some none ∧
      FlagsFit ((puttingRwSet [[1], []]).writesAt ⟨ascii "cc", [], ascii "k"⟩) := by
  have hne : (puttingRwSet [[1], []]).writesAt ⟨ascii "cc", [], ascii "k"⟩ ≠ [] := nofun
  exact ⟨rfl, (denotes_lastWrites_iff _ _ hne).mp ⟨_, rfl, rfl, fun _ => rfl⟩⟩

/-- Two puts of a key add up to the flag of a metadata update. -/
theorem repeated_put_metadataOnly :
    lastValue ((puttingRwSet [[1], [2]]).writesAt ⟨ascii "cc", [], ascii "k"⟩) = some (some [2]) ∧
      ((applyTxRwset SortedMap.empty (puttingRwSet [[1], [2]])).get
        ⟨ascii "cc", [], ascii "k"⟩).map KeyOps.isMetadataOnly = some true := by
  constructor <;> rfl

end FabricSequencer
