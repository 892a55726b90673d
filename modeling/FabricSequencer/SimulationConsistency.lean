import FabricSequencer.ScanConsistency

/-!
# Simulation results validate against the state they were made on

Every operation either leaves the recorded hashed reads and the iterators
alone, or changes them in a way that only depends on the operation and the
committed state.  So the read-write set after a sequence of operations can be
told from the sequence.
-/

namespace FabricSequencer

open StateCall TxSimulator RWSetBuilder SortedMap VersionedValue NsPubRwBuilder

/-! ## What the builder holds -/

namespace RWSetBuilder

theorem getOrCreate_changeNs (b : RWSetBuilder) (ns : GoString)
    (change : NsPubRwBuilder → NsPubRwBuilder) (other : GoString) :
    (b.changeNs ns change).getOrCreateNsPubRwBuilder other =
      if other = ns then change (b.getOrCreateNsPubRwBuilder ns)
      else b.getOrCreateNsPubRwBuilder other := by
  unfold getOrCreateNsPubRwBuilder changeNs
  rw [get_insert]
  split_ifs <;> rfl

def hashedRead (b : RWSetBuilder) (ns coll key : GoString) : Option KVReadHash :=
  ((b.getOrCreateNsPubRwBuilder ns).getOrCreateCollHashedRwBuilder coll).readMap.get key

end RWSetBuilder

theorem NsPubRwBuilder.getOrCreate_insert (bd : NsPubRwBuilder)
    (coll : GoString) (collBuilder : CollHashRwBuilder) (other : GoString) :
    ({ bd with
        collHashRwBuilder := bd.collHashRwBuilder.insert coll collBuilder } :
      NsPubRwBuilder).getOrCreateCollHashedRwBuilder other =
      if other = coll then collBuilder
      else bd.getOrCreateCollHashedRwBuilder other := by
  unfold getOrCreateCollHashedRwBuilder
  rw [get_insert]
  split_ifs <;> rfl

structure RecordsState (env : SimEnv) (b : RWSetBuilder) : Prop where
  reads : ∀ ns key kvRead,
    (b.getOrCreateNsPubRwBuilder ns).readMap.get key = some kvRead →
      kvRead = newKVRead key (env.db.getVersion (.pub ns) key)
  rangeQueries : ∀ ns, (b.getOrCreateNsPubRwBuilder ns).rangeQueries = []
  hashedReads : ∀ ns coll key kvReadHash,
    b.hashedRead ns coll key = some kvReadHash → kvReadHash.keyHash = env.computeHash key

structure QuietChange (env : SimEnv) (change : RWSetBuilder → RWSetBuilder) : Prop where
  hashedRead : ∀ b, (change b).hashedRead = b.hashedRead
  sound : ∀ b, RecordsState env b → RecordsState env (change b)

variable {env : SimEnv} {ns : GoString} {change : NsPubRwBuilder → NsPubRwBuilder}

theorem quietChange_changeNs
    (hrd : ∀ bd key kvRead,
      (change bd).readMap.get key = some kvRead →
        bd.readMap.get key = some kvRead ∨ kvRead = newKVRead key (env.db.getVersion (.pub ns) key))
    (hq : ∀ bd, (change bd).rangeQueries = bd.rangeQueries)
    (hcl : ∀ bd coll,
      ((change bd).getOrCreateCollHashedRwBuilder coll).readMap =
        (bd.getOrCreateCollHashedRwBuilder coll).readMap) :
    QuietChange env fun b => b.changeNs ns change := by
  have hh : ∀ b : RWSetBuilder, (b.changeNs ns change).hashedRead = b.hashedRead := by
    intro b
    funext other coll key
    unfold hashedRead
    rw [getOrCreate_changeNs]
    split_ifs with hns
    · rw [hns, hcl]
    · rfl
  refine ⟨hh, fun b hsn => ⟨?_, ?_, ?_⟩⟩
  · intro other key kvRead hg
    rw [getOrCreate_changeNs] at hg
    split_ifs at hg with hns
    · subst hns
      rcases hrd _ key kvRead hg with hold | hnew
      · exact hsn.reads other key kvRead hold
      · exact hnew
    · exact hsn.reads other key kvRead hg
  · intro other
    rw [getOrCreate_changeNs]
    split_ifs with hns
    · rw [hq]
      exact hsn.rangeQueries ns
    · exact hsn.rangeQueries other
  · intro other coll key kv hg
    rw [hh] at hg
    exact hsn.hashedReads other coll key kv hg

variable {ns coll : GoString}

theorem quietChange_changeColl {change : CollHashRwBuilder → CollHashRwBuilder}
    (hrd : ∀ bd, (change bd).readMap = bd.readMap) :
    QuietChange env fun b => b.changeColl ns coll change := by
  apply quietChange_changeNs
  · intro _ _ _ hg
    exact .inl hg
  · intro bd
    rfl
  intro _ _
  rw [getOrCreate_insert]
  split_ifs with hcoll
  · rw [hrd, hcoll]
  · rfl

theorem quietChange_addToReadSet (env : SimEnv) (ns key : GoString) : QuietChange env fun b =>
      b.addToReadSet ns key (env.db.getVersion (.pub ns) key) := by
  apply quietChange_changeNs
  · intro _ _ _ hg
    rw [get_insert] at hg
    split_ifs at hg with hkey
    · subst hkey
      exact .inr (Option.some.inj hg).symm
    · exact .inl hg
  · intro bd
    rfl
  · intro _ _
    rfl

theorem quietChange_write (hrd : ∀ bd, (change bd).readMap = bd.readMap)
    (hq : ∀ bd, (change bd).rangeQueries = bd.rangeQueries)
    (hcl : ∀ bd, (change bd).collHashRwBuilder = bd.collHashRwBuilder) :
    QuietChange env fun b => b.changeNs ns change := by
  apply quietChange_changeNs
  · intro _ _ _ hg
    rw [hrd] at hg
    exact .inl hg
  · exact hq
  · intro _ _
    simp only [getOrCreateCollHashedRwBuilder, hcl]

theorem hashedRead_addToHashedReadSet (b : RWSetBuilder) (computeHash : Bytes → Bytes)
    (ns coll key : GoString) (version : Option Height) (ns' co' key' : GoString) :
    (b.addToHashedReadSet computeHash ns coll key version).hashedRead ns' co' key' =
      if ns' = ns ∧ co' = coll ∧ key' = key then
        some { keyHash := computeHash key, version := version }
      else b.hashedRead ns' co' key' := by
  unfold RWSetBuilder.addToHashedReadSet RWSetBuilder.changeColl RWSetBuilder.hashedRead
  rw [RWSetBuilder.getOrCreate_changeNs]
  by_cases hns : ns' = ns
  · subst hns
    rw [if_pos rfl, getOrCreate_insert]
    by_cases hco : co' = coll
    · subst hco
      simp [get_insert]
    · simp [hco]
  · simp [hns]

theorem recordsState_addToHashedReadSet {b : RWSetBuilder}
    (hsn : RecordsState env b) (ns coll key : GoString) (ver : Option Height) :
    RecordsState env (b.addToHashedReadSet env.computeHash ns coll key ver) := by
  refine ⟨?_, ?_, ?_⟩
  · intro other otherKey kvRead hg
    unfold RWSetBuilder.addToHashedReadSet RWSetBuilder.changeColl at hg
    rw [RWSetBuilder.getOrCreate_changeNs] at hg
    split_ifs at hg with hns
    · exact hns ▸ hsn.reads ns otherKey kvRead hg
    · exact hsn.reads other otherKey kvRead hg
  · intro other
    unfold RWSetBuilder.addToHashedReadSet RWSetBuilder.changeColl
    rw [RWSetBuilder.getOrCreate_changeNs]
    split_ifs with hns
    · exact hsn.rangeQueries ns
    · exact hsn.rangeQueries other
  · intro other otherColl otherKey kv hg
    rw [hashedRead_addToHashedReadSet] at hg
    split_ifs at hg with heq
    · rw [heq.2.2, ← Option.some.inj hg]
    · exact hsn.hashedReads other otherColl otherKey kv hg

def collAccepted (env : SimEnv) (ns coll : GoString) : Bool :=
  match env.allCollectionsConfigPkg ns with
  | .ok (some pkg) => coll == [] || pkg.contains coll
  | _ => false

structure SoundSimulator (env : SimEnv) (s : TxSimulator) : Prop where
  builder : RecordsState env s.rwsetBuilder
  cache : ∀ ns, isPopulatedFor s.cache ns = true →
    ∀ coll, (ns, coll) ∈ s.cache ↔ collAccepted env ns coll = true
  populated : ∀ ns coll, (ns, coll) ∈ s.cache → isPopulatedFor s.cache ns = true

structure Quiet (env : SimEnv) (s s' : TxSimulator) : Prop where
  itrs : s'.itrs = s.itrs
  hashedRead : s'.rwsetBuilder.hashedRead = s.rwsetBuilder.hashedRead
  sound : SoundSimulator env s → SoundSimulator env s'

instance (env : SimEnv) : IsPreorder TxSimulator (Quiet env) where
  refl _ := ⟨rfl, rfl, id⟩
  trans _ _ _ hfirst hsecond :=
    ⟨hsecond.itrs.trans hfirst.itrs, hsecond.hashedRead.trans hfirst.hashedRead,
      hsecond.sound ∘ hfirst.sound⟩

variable {env : SimEnv} {change : RWSetBuilder → RWSetBuilder}

theorem quiet_build (hqt : QuietChange env change) (s : TxSimulator) :
    Quiet env s { s with rwsetBuilder := change s.rwsetBuilder } where
  itrs := rfl
  hashedRead := hqt.hashedRead s.rwsetBuilder
  sound hsn := ⟨hqt.sound _ hsn.builder, hsn.cache, hsn.populated⟩

theorem keeps_build (hqt : QuietChange env change) : Keeps (Quiet env) (build change) :=
  quiet_build hqt

variable {α : Type}

theorem after_liftOutcome (oc : Outcome α) (s : TxSimulator) : after (liftOutcome oc) s = s := by
  cases oc <;> rfl

theorem keeps_liftOutcome (oc : Outcome α) : Keeps (Quiet env) (liftOutcome oc) := by
  intro s
  rw [after_liftOutcome]
  exact refl_of (Quiet env) s

theorem keeps_getState (ns key : GoString) : Keeps (Quiet env) (getState env ns key) :=
  (keeps_build (quietChange_addToReadSet env ns key)).bind fun _ =>
    keeps_pure _

theorem keeps_getStateMetadata (ns key : GoString) :
    Keeps (Quiet env) (getStateMetadata env ns key) :=
  (keeps_getState ns key).bind fun _ => keeps_liftOutcome _

theorem keeps_getStateMultipleKeys (ns : GoString) (keys : List GoString) :
    Keeps (Quiet env) (getStateMultipleKeys env ns keys) := by
  apply keeps_mapM
  intro key _
  exact (keeps_getState ns key).bind fun _ => keeps_pure _

theorem keeps_checkWritePrecondition : Keeps (Quiet env) (checkWritePrecondition env) := by
  unfold checkWritePrecondition
  refine keeps_get.bind fun s => ?_
  dsimp only
  split_ifs
  · exact (keeps_throw _).bind fun _ s => ⟨rfl, rfl, fun h => ⟨h.1, h.2, h.3⟩⟩
  · exact fun s => ⟨rfl, rfl, fun h => ⟨h.1, h.2, h.3⟩⟩

theorem keeps_checkBeforePvtdataQueries : Keeps (Quiet env) (checkBeforePvtdataQueries env) := by
  unfold checkBeforePvtdataQueries
  refine keeps_get.bind fun s => ?_
  dsimp only
  split_ifs
  · exact (keeps_throw _).bind fun _ s => ⟨rfl, rfl, fun h => ⟨h.1, h.2, h.3⟩⟩
  · exact fun s => ⟨rfl, rfl, fun h => ⟨h.1, h.2, h.3⟩⟩

theorem keeps_writeState (hqt : QuietChange env change) (ns key : GoString) :
    Keeps (Quiet env) (do
      checkWritePrecondition env
      build change
      checkStateMetadata env ns key) :=
  keeps_checkWritePrecondition.bind fun _ =>
    (keeps_build hqt).bind fun _ =>
      (keeps_liftOutcome _).bind fun _ => keeps_pure _

theorem keeps_setState (ns key : GoString) (value : Bytes) :
    Keeps (Quiet env) (setState env ns key value) := by
  apply keeps_writeState
  unfold addToWriteSet
  exact quietChange_write (fun _ => rfl) (fun _ => rfl) fun _ => rfl

theorem keeps_setStateMetadata (ns key : GoString) (md : SortedMap GoString Bytes) :
    Keeps (Quiet env) (setStateMetadata env ns key md) := by
  apply keeps_writeState
  unfold addToMetadataWriteSet
  exact quietChange_write (fun _ => rfl) (fun _ => rfl) fun _ => rfl

/-! ## Collection names -/

theorem lookups_spec (lookups : List (GoString × GoString)) (s : TxSimulator) :
    ∃ s', (forM lookups fun lookup => do
        let _ ← getState env lookup.1 lookup.2 : SimM Unit) s = .ok () s' ∧
      Quiet env s s' ∧ s'.cache = s.cache := by
  induction lookups generalizing s with
  | nil => exact ⟨s, rfl, refl_of (Quiet env) s, rfl⟩
  | cons lookup _ ih =>
    have hf : Quiet env s (after (getState env lookup.1 lookup.2) s) :=
      keeps_getState lookup.1 lookup.2 s
    obtain ⟨s', hrs, hqt, hch⟩ := ih (after (getState env lookup.1 lookup.2) s)
    refine ⟨s', ?_, trans_of (Quiet env) hf hqt, hch⟩
    rw [List.forM_cons, bind_eq]
    exact hrs

theorem retrieveCollConfigFromStateDB_spec (env : SimEnv) (ns : GoString) (s : TxSimulator) :
    ∃ s', Quiet env s s' ∧ s'.cache = s.cache ∧
      ((∃ pkg, env.allCollectionsConfigPkg ns = .ok (some pkg) ∧
          retrieveCollConfigFromStateDB env ns s = .ok pkg s') ∨
        ((∀ pkg, env.allCollectionsConfigPkg ns ≠ .ok (some pkg)) ∧
          ∃ failure, retrieveCollConfigFromStateDB env ns s = .error failure s')) := by
  obtain ⟨s', hl, hqt, hch⟩ := lookups_spec (env.lookups ns) s
  refine ⟨s', hqt, hch, ?_⟩
  unfold retrieveCollConfigFromStateDB
  rw [bind_eq, hl]
  rcases env.allCollectionsConfigPkg ns with failure | (_ | pkg)
  · exact .inr ⟨by simp, failure, rfl⟩
  · exact .inr ⟨by simp, _, rfl⟩
  · exact .inl ⟨pkg, rfl, rfl⟩

variable {pkg : List GoString} {cache : List (GoString × GoString)}

theorem mem_populate {ns' coll : GoString} :
    (ns', coll) ∈ populate cache ns pkg ↔
      (ns', coll) ∈ cache ∨ ns' = ns ∧ (coll = [] ∨ coll ∈ pkg) := by
  simp only [populate, List.mem_append, List.mem_cons, List.mem_map, Prod.mk.injEq]
  aesop

theorem isPopulatedFor_iff : isPopulatedFor cache ns = true ↔ (ns, ([] : GoString)) ∈ cache := by
  simp [isPopulatedFor]

variable {s : TxSimulator}

theorem sound_populate (hk : env.allCollectionsConfigPkg ns = .ok (some pkg))
    (hfr : isPopulatedFor s.cache ns = false) (hsn : SoundSimulator env s) :
    SoundSimulator env { s with cache := populate s.cache ns pkg } := by
  have hno : ∀ coll, (ns, coll) ∉ s.cache := by
    intro coll hm
    have hp := hsn.populated ns coll hm
    rw [hfr] at hp
    cases hp
  refine ⟨hsn.builder, ?_, ?_⟩
  · intro other hp coll
    rw [isPopulatedFor_iff, mem_populate] at hp
    rw [mem_populate]
    by_cases hns : other = ns
    · subst hns
      simp [hno coll, collAccepted, hk]
    · have hl := hp.resolve_right fun h => hns h.1
      rw [← hsn.cache other (isPopulatedFor_iff.mpr hl) coll]
      simp [hns]
  · intro other coll hm
    rw [isPopulatedFor_iff, mem_populate]
    rcases mem_populate.mp hm with hl | hn
    · exact .inl (isPopulatedFor_iff.mp (hsn.populated other coll hl))
    · exact .inr ⟨hn.1, .inl rfl⟩

theorem validateCollName_of_populated (hp : isPopulatedFor s.cache ns = true) (coll : GoString) :
    (validateCollName env ns coll s = .ok () s ∧ (ns, coll) ∈ s.cache) ∨
      (∃ failure, validateCollName env ns coll s = .error failure s) ∧ (ns, coll) ∉ s.cache := by
  unfold validateCollName
  rw [bind_eq, get_eq]
  simp only [bind_eq, get_eq, hp, Bool.not_true, Bool.false_eq_true, if_false]
  cases hm : s.cache.contains (ns, coll) with
  | true => exact .inl ⟨rfl, by simpa using hm⟩
  | false => exact .inr ⟨⟨_, rfl⟩, by simpa using hm⟩

theorem quiet_populate (hp : env.allCollectionsConfigPkg ns = .ok (some pkg))
    (hfr : isPopulatedFor s.cache ns = false) :
    Quiet env s { s with cache := populate s.cache ns pkg } :=
  ⟨rfl, rfl, sound_populate hp hfr⟩

variable {s s' : TxSimulator}

theorem validateCollName_of_failed {failure : Failure} (hfr : isPopulatedFor s.cache ns = false)
    (hf : retrieveCollConfigFromStateDB env ns s = .error failure s') (coll : GoString) :
    validateCollName env ns coll s = .error failure s' := by
  unfold validateCollName
  simp only [bind_eq, get_eq, hfr, Bool.not_false, if_true, hf]

theorem validateCollName_of_fresh (hfr : isPopulatedFor s.cache ns = false)
    (hrt : retrieveCollConfigFromStateDB env ns s = .ok pkg s') (coll : GoString) :
    validateCollName env ns coll s =
      validateCollName env ns coll
        { s' with cache := populate s'.cache ns pkg } := by
  have hp : isPopulatedFor (populate s'.cache ns pkg) ns = true :=
    isPopulatedFor_iff.mpr (mem_populate.mpr (.inr ⟨rfl, .inl rfl⟩))
  unfold validateCollName
  simp only [bind_eq, get_eq, hfr, hp, Bool.not_true,
    Bool.not_false, Bool.false_eq_true, if_false, if_true, hrt]
  rfl

theorem validateCollName_spec (env : SimEnv) (ns coll : GoString) (s : TxSimulator) :
    ∃ s', Quiet env s s' ∧
      (validateCollName env ns coll s = .ok () s' ∧
          (SoundSimulator env s → collAccepted env ns coll = true) ∨
        (∃ failure, validateCollName env ns coll s = .error failure s') ∧
          (SoundSimulator env s → collAccepted env ns coll = false)) := by
  cases hp : isPopulatedFor s.cache ns with
  | true =>
    refine ⟨s, refl_of (Quiet env) s, ?_⟩
    rcases validateCollName_of_populated hp coll with ⟨hok, hm⟩ | ⟨hr, hm⟩
    · exact .inl ⟨hok, fun hsn => (hsn.cache ns hp coll).mp hm⟩
    · refine .inr ⟨hr, fun hsn => ?_⟩
      rw [hsn.cache ns hp coll] at hm
      exact Bool.eq_false_of_not_eq_true hm
  | false =>
    obtain ⟨s', hquiet, hcache, ⟨pkg, hk, hrt⟩ | ⟨hno, hr⟩⟩ :=
      retrieveCollConfigFromStateDB_spec env ns s
    · have hqt' := trans_of (Quiet env) hquiet (quiet_populate hk (hcache ▸ hp))
      refine ⟨_, hqt', ?_⟩
      rw [validateCollName_of_fresh hp hrt]
      have hfl : isPopulatedFor (populate s'.cache ns pkg) ns = true :=
        isPopulatedFor_iff.mpr (mem_populate.mpr (.inr ⟨rfl, .inl rfl⟩))
      rcases validateCollName_of_populated (s :=
        { s' with cache := populate s'.cache ns pkg }) hfl coll with
        ⟨hok, hm⟩ | ⟨hr, hm⟩
      · exact .inl ⟨hok, fun hsn =>
          ((hqt'.sound hsn).cache ns hfl coll).mp hm⟩
      · refine .inr ⟨hr, fun hsn => ?_⟩
        rw [(hqt'.sound hsn).cache ns hfl coll] at hm
        exact Bool.eq_false_of_not_eq_true hm
    · refine ⟨s', hquiet, .inr ⟨?_, fun _ => ?_⟩⟩
      · obtain ⟨failure, hf⟩ := hr
        exact ⟨failure, validateCollName_of_failed hp hf coll⟩
      · unfold collAccepted
        split
        · exact absurd ‹_› (hno _)
        · rfl

theorem keeps_validateCollName (ns coll : GoString) :
    Keeps (Quiet env) (validateCollName env ns coll) := by
  intro s
  obtain ⟨_, hquiet, ⟨hok, -⟩ | ⟨⟨_, hr⟩, -⟩⟩ := validateCollName_spec env ns coll s
  · rw [after, hok]
    exact hquiet
  · rw [after, hr]
    exact hquiet

theorem keeps_writePrivate (hqt : QuietChange env change) (ns coll key : GoString) :
    Keeps (Quiet env) (writePrivate env ns coll key change) :=
  (keeps_validateCollName ns coll).bind fun _ =>
    keeps_checkWritePrecondition.bind fun _ =>
      (keeps_build hqt).bind fun _ =>
        (keeps_liftOutcome _).bind fun _ => keeps_pure _

section

variable (ns coll key : GoString)

theorem keeps_setPrivateData (value : Bytes) :
    Keeps (Quiet env) (setPrivateData env ns coll key value) := by
  apply keeps_writePrivate
  unfold addToPvtAndHashedWriteSet addToHashedWriteSet
  exact quietChange_changeColl fun _ => rfl

theorem keeps_purgePrivateData : Keeps (Quiet env) (purgePrivateData env ns coll key) := by
  apply keeps_writePrivate
  unfold addToPvtAndHashedWriteSetForPurge addToHashedWriteSet
  exact quietChange_changeColl fun _ => rfl

theorem keeps_setPrivateDataMetadata (md : SortedMap GoString Bytes) :
    Keeps (Quiet env) (setPrivateDataMetadata env ns coll key md) := by
  apply keeps_writePrivate
  unfold addToHashedMetadataWriteSet
  exact quietChange_changeColl fun _ => rfl

end

theorem keeps_getPrivateDataMetadataByHash (ns coll : GoString) :
    Keeps (Quiet env) (getPrivateDataMetadataByHash env ns coll) :=
  (keeps_validateCollName ns coll).bind fun _ => keeps_throw _

theorem keeps_getPrivateDataRangeScanIterator (ns coll sk ek : GoString) :
    Keeps (Quiet env) (getPrivateDataRangeScanIterator env ns coll sk ek) :=
  keeps_checkBeforePvtdataQueries.bind fun _ =>
    (keeps_validateCollName ns coll).bind fun _ => keeps_pure _

/-! ## Hashed reads -/

section

variable (env : SimEnv)

section

variable (ns coll key : GoString)

def pvtVersion : Option Height :=
  env.db.getVersion (.pvt ns coll) key

def hashVersion : Option Height :=
  env.db.getKeyHashVersion ns coll (env.computeHash key)

def SimOp.recordsHashedRead : SimOp → Bool
  | .getPrivateData ns' coll' key' =>
    collAccepted env ns coll && (ns, coll, key) == (ns', coll', key') &&
      hashVersion env ns coll key == pvtVersion env ns coll key
  | .getPrivateDataHash ns' coll' key' =>
    collAccepted env ns coll && (ns, coll, key) == (ns', coll', key')
  | .getPrivateDataMetadata ns' coll' key' =>
    collAccepted env ns coll && (ns, coll, key) == (ns', coll', key')
  | .getPrivateDataMultipleKeys ns' coll' keys =>
    collAccepted env ns coll && (ns, coll) == (ns', coll') && keys.contains key
  | _ => false

def SimOp.recordedVersion : SimOp → Option Height
  | .getPrivateDataMultipleKeys _ _ _ => pvtVersion env ns coll key
  | _ => hashVersion env ns coll key

end

structure Reads (op : SimOp) (s s' : TxSimulator) : Prop where
  hashedRead : ∀ ns coll key, s'.rwsetBuilder.hashedRead ns coll key =
    if op.recordsHashedRead env ns coll key then
      some { keyHash := env.computeHash key
             version := op.recordedVersion env ns coll key }
    else s.rwsetBuilder.hashedRead ns coll key
  sound : SoundSimulator env s'

structure Recorded (op : SimOp) (s s' : TxSimulator) : Prop extends Reads env op s s' where
  itrs : s'.itrs = s.itrs

end

variable {op : SimOp}

theorem Quiet.recorded (hqt : Quiet env s s') (hsn : SoundSimulator env s)
    (hno : ∀ ns coll key, op.recordsHashedRead env ns coll key = false) : Recorded env op s s' where
  itrs := hqt.itrs
  hashedRead ns coll key := by simp [hno, hqt.hashedRead]
  sound := hqt.sound hsn

def recordKeys (env : SimEnv) (ns coll : GoString)
    (version : GoString → Option Height) (keys : List GoString) (b : RWSetBuilder) : RWSetBuilder :=
  keys.foldl (fun b key =>
    b.addToHashedReadSet env.computeHash ns coll key (version key)) b

theorem hashedRead_recordKeys (ns coll : GoString) (version : GoString → Option Height)
    (keys : List GoString) (b : RWSetBuilder) (ns' co' key' : GoString) :
    (recordKeys env ns coll version keys b).hashedRead ns' co' key' =
      if ns' = ns ∧ co' = coll ∧ key' ∈ keys then
        some { keyHash := env.computeHash key', version := version key' }
      else b.hashedRead ns' co' key' := by
  induction keys generalizing b with
  | nil => simp [recordKeys]
  | cons key keys ih =>
    have hstep : recordKeys env ns coll version (key :: keys) b =
        recordKeys env ns coll version keys
          (b.addToHashedReadSet env.computeHash ns coll key (version key)) :=
      rfl
    rw [hstep, ih, hashedRead_addToHashedReadSet]
    by_cases hco : ns' = ns ∧ co' = coll
    · by_cases hk : key' = key <;> simp [hco, hk]
    · simp [← and_assoc, hco]

theorem recordsState_recordKeys {b : RWSetBuilder} (hsn : RecordsState env b) (ns coll : GoString)
    (ver : GoString → Option Height) (keys : List GoString) :
    RecordsState env (recordKeys env ns coll ver keys b) := by
  induction keys generalizing b with
  | nil => exact hsn
  | cons key _ ih => exact ih (recordsState_addToHashedReadSet hsn ns coll key (ver key))

variable {keys : List GoString}

theorem Quiet.recorded_keys {s checked : TxSimulator}
    {ver : GoString → Option Height} (hqt : Quiet env s checked) (hsn : SoundSimulator env s)
    (hrc : ∀ ns' co' key',
      op.recordsHashedRead env ns' co' key' = true ↔ ns' = ns ∧ co' = coll ∧ key' ∈ keys)
    (hv : ∀ key ∈ keys, op.recordedVersion env ns coll key = ver key) :
    Recorded env op s
      { checked with
        rwsetBuilder :=
          recordKeys env ns coll ver keys checked.rwsetBuilder } where
  itrs := hqt.itrs
  hashedRead ns' co' key' := by
    simp only [hashedRead_recordKeys, hrc, hqt.hashedRead]
    split_ifs with heq
    · rw [heq.1, heq.2.1, hv key' heq.2.2]
    · rfl
  sound :=
    { builder := recordsState_recordKeys (hqt.sound hsn).builder ns coll
        ver keys
      cache := (hqt.sound hsn).cache
      populated := (hqt.sound hsn).populated }

theorem recordsKeys_iff (ha : collAccepted env ns coll = true)
    (hrc : ∀ ns' co' key',
      op.recordsHashedRead env ns' co' key' =
        (collAccepted env ns' co' && (ns', co') == (ns, coll) &&
          keys.contains key')) (ns' co' key' : GoString) :
    op.recordsHashedRead env ns' co' key' = true ↔ ns' = ns ∧ co' = coll ∧ key' ∈ keys := by
  rw [hrc]
  simp only [Bool.and_eq_true, beq_iff_eq, Prod.mk.injEq, List.contains_iff_mem]
  constructor
  · rintro ⟨⟨-, hns, hco⟩, hm⟩
    exact ⟨hns, hco, hm⟩
  · rintro ⟨rfl, rfl, hm⟩
    exact ⟨⟨ha, rfl, rfl⟩, hm⟩

theorem records_nothing (keys : List GoString) (hr : collAccepted env ns coll = false)
    (hrc : ∀ ns' co' key',
      op.recordsHashedRead env ns' co' key' =
        (collAccepted env ns' co' && (ns', co') == (ns, coll) &&
          keys.contains key')) (ns' co' key' : GoString) :
    op.recordsHashedRead env ns' co' key' = false := by
  rw [hrc]
  by_cases heq : (ns', co') = (ns, coll)
  · rw [Prod.mk.injEq] at heq
    rw [heq.1, heq.2, hr]
    rfl
  · simp [heq]

theorem recorded_of_checked {s start : TxSimulator} (keys : List GoString)
    (ver : GoString → Option Height) {next : Unit → SimM α}
    (hsr : Quiet env s start) (hsn : SoundSimulator env s)
    (hnx : ∀ checked, after (next ()) checked =
      { checked with
        rwsetBuilder := recordKeys env ns coll ver keys checked.rwsetBuilder })
    (hrc : ∀ ns' co' key',
      op.recordsHashedRead env ns' co' key' =
        (collAccepted env ns' co' && (ns', co') == (ns, coll) && keys.contains key'))
    (hv : ∀ key ∈ keys, op.recordedVersion env ns coll key = ver key) :
    Recorded env op s (after (validateCollName env ns coll >>= next) start) := by
  have hst := hsr.sound hsn
  obtain ⟨_, hquiet, ⟨hok, ha⟩ | ⟨⟨_, hr⟩, hrefused⟩⟩ := validateCollName_spec env ns coll start
  · rw [after_bind_ok hok, hnx]
    exact (trans_of (Quiet env) hsr hquiet).recorded_keys hsn (recordsKeys_iff (ha hst) hrc) hv
  · rw [after_bind_error hr]
    exact (trans_of (Quiet env) hsr hquiet).recorded hsn (records_nothing keys (hrefused hst) hrc)

theorem after_mapM_record (env : SimEnv) (ns coll : GoString) (ver : GoString → Option Height)
    (value : GoString → Option Bytes) (keys : List GoString) (s : TxSimulator) :
    ∃ values, (keys.mapM fun key => do
        addToHashedReadSet env ns coll key (ver key)
        pure (value key) : SimM (List (Option Bytes))) s =
      .ok values
        { s with
          rwsetBuilder :=
            recordKeys env ns coll ver keys s.rwsetBuilder } := by
  induction keys generalizing s with
  | nil => exact ⟨[], rfl⟩
  | cons key keys ih =>
    obtain ⟨values, hrs⟩ := ih (after (addToHashedReadSet env ns coll key (ver key)) s)
    refine ⟨value key :: values, ?_⟩
    rw [List.mapM_cons, bind_eq]
    change (keys.mapM _ >>= fun tl => pure (value key :: tl) : SimM (List (Option Bytes)))
      (after (addToHashedReadSet env ns coll key (ver key)) s) = _
    rw [bind_eq, hrs]
    rfl

theorem beq_key_eq (ns coll key ns' co' key' : GoString) :
    ((ns, coll, key) == (ns', co', key')) = ((ns, coll) == (ns', co') && [key'].contains key) := by
  rw [Bool.eq_iff_iff]
  simp [and_assoc]

section Reads

variable (hsn : SoundSimulator env s)

include hsn

theorem recorded_getPrivateData (ns coll key : GoString) :
    Recorded env (.getPrivateData ns coll key) s (after (getPrivateData env ns coll key) s) := by
  unfold getPrivateData
  by_cases heq : hashVersion env ns coll key = pvtVersion env ns coll key
  · have hr : areSame (env.db.getKeyHashVersion ns coll (env.computeHash key))
        ((env.db.getState (.pvt ns coll) key).map version) =
        true := areSame_iff.mpr heq
    apply recorded_of_checked [key] (fun _ => pvtVersion env ns coll key)
      (refl_of (Quiet env) s) hsn
    · intro checked
      simp only [hr, Bool.not_true, Bool.false_eq_true, if_false]
      rfl
    · intro ns' co' key'
      rw [Bool.and_assoc, ← beq_key_eq]
      by_cases hk : (ns', co', key') = (ns, coll, key)
      · simp only [Prod.mk.injEq] at hk
        simp [SimOp.recordsHashedRead, hk, heq]
      · simp [SimOp.recordsHashedRead, hk]
    · intro _ hm
      rw [List.mem_singleton.mp hm]
      exact heq
  · have hr : areSame (env.db.getKeyHashVersion ns coll (env.computeHash key))
        ((env.db.getState (.pvt ns coll) key).map version) =
        false := Bool.eq_false_of_not_eq_true (mt areSame_iff.mp heq)
    apply recorded_of_checked [] (fun _ => none) (refl_of (Quiet env) s) hsn
    · intro checked
      simp only [hr, Bool.not_false, if_true]
      rfl
    · intro ns' co' key'
      by_cases hk : (ns', co', key') = (ns, coll, key)
      · simp only [Prod.mk.injEq] at hk
        simp [SimOp.recordsHashedRead, hk, heq]
      · simp [SimOp.recordsHashedRead, hk]
    · simp

theorem recorded_valueHash {start : TxSimulator} {ns coll key : GoString} (hsr : Quiet env s start)
    (hrc : ∀ ns' co' key',
      op.recordsHashedRead env ns' co' key' =
        (collAccepted env ns' co' && (ns', co', key') == (ns, coll, key)))
    (hv : op.recordedVersion env ns coll key = hashVersion env ns coll key) :
    Recorded env op s (after (getPrivateDataValueHash env ns coll key) start) := by
  apply recorded_of_checked [key] (fun _ => hashVersion env ns coll key) hsr hsn
  · intro checked
    rfl
  · intro _ _ _
    rw [hrc, beq_key_eq, Bool.and_assoc]
  · intro _ hm
    rw [List.mem_singleton.mp hm]
    exact hv

theorem recorded_getPrivateDataHash (ns coll key : GoString) :
    Recorded env (.getPrivateDataHash ns coll key) s
      (after (getPrivateDataHash env ns coll key) s) := by
  have hca : after (getPrivateDataHash env ns coll key) s =
      after (getPrivateDataValueHash env ns coll key) s :=
    after_bind_unchanged (fun _ _ => rfl) s
  rw [hca]
  exact recorded_valueHash hsn (refl_of (Quiet env) s) (fun _ _ _ => rfl) rfl

theorem recorded_getPrivateDataMetadata (ns coll key : GoString) :
    Recorded env (.getPrivateDataMetadata ns coll key) s
      (after (getPrivateDataMetadata env ns coll key) s) := by
  obtain ⟨checked, hquiet, ⟨hok, -⟩ | ⟨⟨_, hr⟩, hrefused⟩⟩ := validateCollName_spec env ns coll s
  · have hca : after (getPrivateDataMetadata env ns coll key) s =
        after (getPrivateDataValueHash env ns coll key) checked :=
      (after_bind_ok hok).trans (after_bind_unchanged (fun _ _ => after_liftOutcome _ _) checked)
    rw [hca]
    exact recorded_valueHash hsn hquiet (fun _ _ _ => rfl) rfl
  have hca : after (getPrivateDataMetadata env ns coll key) s = checked := after_bind_error hr
  rw [hca]
  refine hquiet.recorded hsn (records_nothing [key] (hrefused hsn) ?_)
  intro _ _ _
  rw [Bool.and_assoc, ← beq_key_eq]
  rfl

theorem recorded_getPrivateDataMultipleKeys (ns coll : GoString) (keys : List GoString) :
    Recorded env (.getPrivateDataMultipleKeys ns coll keys) s
      (after (getPrivateDataMultipleKeys env ns coll keys) s) := by
  unfold getPrivateDataMultipleKeys
  apply recorded_of_checked keys (pvtVersion env ns coll) (refl_of (Quiet env) s) hsn
  · intro checked
    obtain ⟨_, hca⟩ := after_mapM_record env ns coll (pvtVersion env ns coll)
      (fun key => (env.db.getState (.pvt ns coll) key).map value) keys checked
    exact after_eq_of_ok hca
  · intro _ _ _
    rfl
  · intro _ _
    rfl

end Reads

/-! ## Sequences of operations -/

def stepScans (scans : List Scan) : SimOp → List Scan
  | .getStateRangeScanIterator ns startKey endKey => scans ++ [⟨ns, startKey, endKey, 0⟩]
  | .next index =>
    match scans[index]? with
    | none => scans
    | some scan => scans.set index scan.advance
  | _ => scans

def scansOf (ops : List SimOp) : List Scan := ops.foldl stepScans []

/-- The operation that left the hashed read of a key. -/
def lastHashedRead (env : SimEnv) (ops : List SimOp) (ns coll key : GoString) : Option SimOp :=
  (ops.filter (SimOp.recordsHashedRead env ns coll key)).getLast?

def itrsOf (env : SimEnv) (scans : List Scan) : List ResultsItr :=
  scans.map (Scan.itr env.db env.hashFunc)

structure CallSpec (env : SimEnv) (op : SimOp) (scans : List Scan) (s s' : TxSimulator) : Prop
    extends Reads env op s s' where
  itrs : s'.itrs = itrsOf env (stepScans scans op)

variable {scans : List Scan}

theorem Recorded.callSpec (hr : Recorded env op s s') (hit : s.itrs = itrsOf env scans)
    (heq : stepScans scans op = scans) : CallSpec env op scans s s' where
  toReads := hr.toReads
  itrs := by rw [hr.itrs, hit, heq]

theorem sound_of_itrs (hsn : SoundSimulator env s)
    (itrs : List ResultsItr) : SoundSimulator env { s with itrs := itrs } :=
  ⟨hsn.builder, hsn.cache, hsn.populated⟩

section Call

variable (hsn : SoundSimulator env s) (hit : s.itrs = itrsOf env scans)

include hsn hit

theorem callSpec_of_keeps {called : SimM α} (hkp : Keeps (Quiet env) called)
    (heq : stepScans scans op = scans)
    (hno : ∀ ns coll key, op.recordsHashedRead env ns coll key = false) :
    CallSpec env op scans s (after called s) :=
  ((hkp s).recorded hsn hno).callSpec hit heq

theorem callSpec_open (ns sk ek : GoString) :
    CallSpec env (.getStateRangeScanIterator ns sk ek) scans s
      (after (getStateRangeScanIterator env ns sk ek) s) := by
  have hca : after (getStateRangeScanIterator env ns sk ek) s =
      { s with
        itrs := s.itrs ++ [Scan.itr env.db env.hashFunc ⟨ns, sk, ek, 0⟩] } := by
    unfold getStateRangeScanIterator
    rw [Scan.newResultsItr_eq env.db env.hashFunc]
    rfl
  rw [hca]
  refine ⟨⟨fun _ _ _ => rfl, sound_of_itrs hsn _⟩, ?_⟩
  simp [hit, itrsOf, stepScans]

theorem callSpec_next (i : ℕ) : CallSpec env (.next i) scans s (after (next env i) s) := by
  have hat : s.itrs[i]? = scans[i]?.map (Scan.itr env.db env.hashFunc) := by
    rw [hit, itrsOf, List.getElem?_map]
  cases hsc : scans[i]? with
  | none =>
    have hca : after (next env i) s = s := by
      rw [hsc] at hat
      unfold TxSimulator.next
      simp only [bind_eq, after, get_eq, hat]
      rfl
    rw [hca]
    refine ⟨⟨fun _ _ _ => rfl, hsn⟩, ?_⟩
    simp [hit, stepScans, hsc]
  | some scan =>
    have hca : after (next env i) s =
        { s with
          itrs := s.itrs.set i (scan.advance.itr env.db env.hashFunc) } := by
      rw [hsc] at hat
      unfold TxSimulator.next
      simp only [bind_eq, after, get_eq, hat, ← Scan.next_itr]
      rfl
    rw [hca]
    refine ⟨⟨fun _ _ _ => rfl, sound_of_itrs hsn _⟩, ?_⟩
    simp [hit, stepScans, hsc, itrsOf, List.map_set]

theorem call_spec (op : SimOp) : CallSpec env op scans s (after (call env op) s) := by
  cases op with
  | getStateRangeScanIterator ns sk ek =>
    exact callSpec_open hsn hit ns sk ek
  | next i =>
    rw [call, after_discard]
    exact callSpec_next hsn hit i
  | getPrivateData ns coll key =>
    have hrecorded := recorded_getPrivateData hsn ns coll key
    rw [call, after_discard]
    exact hrecorded.callSpec hit rfl
  | getPrivateDataHash ns coll key =>
    have hrecorded := recorded_getPrivateDataHash hsn ns coll key
    rw [call, after_discard]
    exact hrecorded.callSpec hit rfl
  | getPrivateDataMetadata ns coll key =>
    have hrecorded := recorded_getPrivateDataMetadata hsn ns coll key
    rw [call, after_discard]
    exact hrecorded.callSpec hit rfl
  | getPrivateDataMultipleKeys ns coll keys =>
    have hrecorded := recorded_getPrivateDataMultipleKeys hsn ns coll keys
    rw [call, after_discard]
    exact hrecorded.callSpec hit rfl
  | getState ns key =>
    rw [call, after_discard]
    refine callSpec_of_keeps hsn hit ?_ rfl fun _ _ _ => rfl
    exact keeps_getState ns key
  | getStateMetadata ns key =>
    rw [call, after_discard]
    refine callSpec_of_keeps hsn hit ?_ rfl fun _ _ _ => rfl
    exact keeps_getStateMetadata ns key
  | getStateMultipleKeys ns keys =>
    rw [call, after_discard]
    refine callSpec_of_keeps hsn hit ?_ rfl fun _ _ _ => rfl
    exact keeps_getStateMultipleKeys ns keys
  | getPrivateDataMetadataByHash ns coll =>
    refine callSpec_of_keeps hsn hit ?_ rfl fun _ _ _ => rfl
    exact keeps_getPrivateDataMetadataByHash ns coll
  | getPrivateDataRangeScanIterator ns coll sk ek =>
    rw [call, after_discard]
    refine callSpec_of_keeps hsn hit ?_ rfl fun _ _ _ => rfl
    exact keeps_getPrivateDataRangeScanIterator ns coll sk ek
  | setState ns key value =>
    refine callSpec_of_keeps hsn hit ?_ rfl fun _ _ _ => rfl
    exact keeps_setState ns key value
  | deleteState ns key =>
    refine callSpec_of_keeps hsn hit ?_ rfl fun _ _ _ => rfl
    exact keeps_setState ns key []
  | setStateMultipleKeys ns kvs =>
    refine callSpec_of_keeps hsn hit ?_ rfl fun _ _ _ => rfl
    exact keeps_forM kvs fun kv _ => keeps_setState ns kv.1 kv.2
  | setStateMetadata ns key md =>
    refine callSpec_of_keeps hsn hit ?_ rfl fun _ _ _ => rfl
    exact keeps_setStateMetadata ns key md
  | deleteStateMetadata ns key =>
    refine callSpec_of_keeps hsn hit ?_ rfl fun _ _ _ => rfl
    exact keeps_setStateMetadata ns key empty
  | setPrivateData ns coll key value =>
    refine callSpec_of_keeps hsn hit ?_ rfl fun _ _ _ => rfl
    exact keeps_setPrivateData ns coll key value
  | deletePrivateData ns coll key =>
    refine callSpec_of_keeps hsn hit ?_ rfl fun _ _ _ => rfl
    exact keeps_setPrivateData ns coll key []
  | setPrivateDataMultipleKeys ns coll kvs =>
    refine callSpec_of_keeps hsn hit ?_ rfl fun _ _ _ => rfl
    exact keeps_forM kvs fun kv _ => keeps_setPrivateData ns coll kv.1 kv.2
  | purgePrivateData ns coll key =>
    refine callSpec_of_keeps hsn hit ?_ rfl fun _ _ _ => rfl
    exact keeps_purgePrivateData ns coll key
  | setPrivateDataMetadata ns coll key md =>
    refine callSpec_of_keeps hsn hit ?_ rfl fun _ _ _ => rfl
    exact keeps_setPrivateDataMetadata ns coll key md
  | deletePrivateDataMetadata ns coll key =>
    refine callSpec_of_keeps hsn hit ?_ rfl fun _ _ _ => rfl
    exact keeps_setPrivateDataMetadata ns coll key empty

end Call

theorem simulate_append (env : SimEnv) (ops : List SimOp) (op : SimOp) :
    simulate env (ops ++ [op]) = after (call env op) (simulate env ops) := by
  simp [simulate]

structure SimulateSpec (env : SimEnv) (ops : List SimOp) (s : TxSimulator) : Prop where
  itrs : s.itrs = itrsOf env (scansOf ops)
  hashedRead : ∀ ns coll key, s.rwsetBuilder.hashedRead ns coll key =
    (lastHashedRead env ops ns coll key).map fun op =>
      { keyHash := env.computeHash key
        version := op.recordedVersion env ns coll key }
  sound : SoundSimulator env s

theorem sound_newTxSimulator : SoundSimulator env newTxSimulator where
  builder :=
    { reads := fun ns key kvRead hg => by cases hg
      rangeQueries := fun ns => rfl
      hashedReads := fun ns coll key kv hg => by cases hg }
  cache := fun ns hp => by cases hp
  populated := fun ns coll hm => by cases hm

theorem simulate_spec (env : SimEnv) (ops : List SimOp) :
    SimulateSpec env ops (simulate env ops) := by
  induction ops using List.reverseRecOn with
  | nil => exact ⟨rfl, fun _ _ _ => rfl, sound_newTxSimulator⟩
  | append_singleton _ op ih =>
    have hca := call_spec ih.sound ih.itrs op
    rw [simulate_append]
    refine ⟨?_, ?_, hca.sound⟩
    · rw [hca.itrs, scansOf, scansOf, List.foldl_append]
      rfl
    · intro ns coll key
      rw [hca.hashedRead, ih.hashedRead, lastHashedRead, lastHashedRead, List.filter_append]
      cases hrc : op.recordsHashedRead env ns coll key <;>
        simp [hrc]

end FabricSequencer
