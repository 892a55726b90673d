import FabricSequencer.GoTypes
import FabricSequencer.SortedMap

/-!
# Answering private data requests

`puller.createResponse` answers a request for private write sets.  Those of
blocks that are not committed yet come from the transient store, which may hold
several entries for a transaction: its own endorsement, and what other peers
have sent, each with the collection configuration that its sender gave.  The
write sets of all entries are put together, and one configuration decides
whether the requester may have them.

The access policies, the data and the configuration history of the ledger are
given.  A configuration of an unknown type is `none`.
-/

namespace FabricSequencer.PvtDataPull

open List

structure CollectionPvtReadWriteSet where
  collectionName : GoString
  rwset : Bytes

structure NsPvtReadWriteSet where
  nameSpace : GoString
  collectionPvtRwset : List CollectionPvtReadWriteSet

/-- `TxPvtReadWriteSetWithConfigInfo`, as it is kept in the transient store. -/
structure StoredEntry (Config : Type) where
  endorsedAt : ℕ
  pvtRwset : List NsPvtReadWriteSet
  collectionConfigs : SortedMap GoString (List (Option Config))

structure Digest where
  txId : GoString
  blockSeq : ℕ
  nameSpace : GoString
  collection : GoString
  seqInBlock : ℕ
deriving DecidableEq

structure TxPvtData where
  seqInBlock : ℕ
  writeSet : Option (List NsPvtReadWriteSet)

structure Element where
  digest : Digest
  payload : List Bytes
deriving DecidableEq

structure Peer (Config Requester : Type) where
  configName : Config → GoString
  accessPolicy : Config → Except String (Requester → Bool)
  ledgerHeight : Except String ℕ
  getTxPvtRWSetByTxid : GoString → Except String (List (StoredEntry Config))
  getPvtDataByNum : ℕ → Except String (List TxPvtData)
  mostRecentCollectionConfigBelow : ℕ → GoString → Except String (Option (List (Option Config)))
  latestCollectionConfig : GoString → GoString → Option Config

variable {Config Requester : Type}

structure PrivatePayload (Config : Type) where
  collectionName : GoString
  nameSpace : GoString
  txId : GoString
  privateRwset : Bytes
  collectionConfigs : List (Option Config)

/-- What `privateDataMessage` stores, and for which transaction.  The height of
the endorsement is not part of the message. -/
def privateDataMessage (payload : PrivatePayload Config) : Option (GoString × StoredEntry Config) :=
  if payload.privateRwset.length = 0 then none
  else
    some (payload.txId,
      { endorsedAt := 0
        pvtRwset :=
          [{ nameSpace := payload.nameSpace
             collectionPvtRwset :=
               [{ collectionName := payload.collectionName
                  rwset := payload.privateRwset }] }]
        collectionConfigs := SortedMap.empty.insert payload.nameSpace payload.collectionConfigs })

/-! ## Reading the stores -/

def extractPvtRWsets (pvtRWSets : List NsPvtReadWriteSet)
    (nameSpace collectionName : GoString) : List Bytes :=
  (pvtRWSets.filter fun nsws => nsws.nameSpace = nameSpace).flatMap fun nsws =>
    (nsws.collectionPvtRwset.filter fun col =>
      col.collectionName = collectionName).map CollectionPvtReadWriteSet.rwset

variable (peer : Peer Config Requester)

def extractCollectionConfig (collectionName : GoString) : List (Option Config) → Option Config
  | [] => none
  | none :: _ => none
  | some config :: configs =>
    if peer.configName config = collectionName then some config
    else extractCollectionConfig collectionName configs

structure Contribution (Config : Type) where
  endorsedAt : ℕ
  config : Config
  rwsets : List Bytes

/-- The body of the loop of `fromTransientStore`.  The iterator cuts the entry
down to the collection of the digest, so one that has no write set for it is
skipped; so is one without a configuration. -/
def contribution (dig : Digest) (entry : StoredEntry Config) : Option (Contribution Config) :=
  let rwsets := extractPvtRWsets entry.pvtRwset dig.nameSpace dig.collection
  if rwsets.length = 0 then none
  else
    match entry.collectionConfigs.get dig.nameSpace with
    | none => none
    | some colConfigs =>
      match extractCollectionConfig peer dig.collection colConfigs with
      | none => none
      | some config =>
        some { endorsedAt := entry.endorsedAt
               config := config
               rwsets := rwsets }

def knownTypes (entry : StoredEntry Config) : Bool :=
  entry.collectionConfigs.entries.all fun package =>
    package.2.all Option.isSome

structure RWSetWithConfig (Config : Type) where
  rwSet : List Bytes
  collectionConfig : Option Config

structure Merge (Config : Type) where
  maxEndorsedAt : ℕ
  results : RWSetWithConfig Config

def Merge.add (merge : Merge Config) (part : Contribution Config) : Merge Config :=
  { maxEndorsedAt :=
      if merge.maxEndorsedAt ≤ part.endorsedAt then part.endorsedAt
      else merge.maxEndorsedAt
    results :=
      { rwSet := merge.results.rwSet ++ part.rwsets
        collectionConfig :=
          if merge.maxEndorsedAt ≤ part.endorsedAt then some part.config
          else merge.results.collectionConfig } }

def Merge.empty : Merge Config := ⟨0, [], none⟩

def merged (parts : List (Contribution Config)) : Merge Config := parts.foldl Merge.add .empty

def described (dig : Digest) : String :=
  "namespace <" ++ printed dig.nameSpace ++ ">, collection name <" ++
    printed dig.collection ++ ">, txID <" ++ printed dig.txId ++ ">"

def fromTransientStore (dig : Digest) : Except String (RWSetWithConfig Config) :=
  match peer.getTxPvtRWSetByTxid dig.txId with
  | .error err =>
    .error ("was not able to retrieve private data from transient store, " ++
      described dig ++ ", due to <" ++ err ++ ">")
  | .ok entries =>
    if entries.all knownTypes then
      .ok (merged (entries.filterMap (contribution peer dig))).results
    else
      .error ("error getting next element out of private data iterator, " ++
        described dig ++ ", due to <unexpected collection type>")

/-- `TxPvtData.Has`, of a write set. -/
def has (writeSet : List NsPvtReadWriteSet) (nameSpace collection : GoString) : Bool :=
  writeSet.any fun nsdata => nsdata.nameSpace = nameSpace &&
    nsdata.collectionPvtRwset.any fun coll => coll.collectionName = collection

def ledgerRWSets (pvtData : List TxPvtData) (dig : Digest) : List Bytes :=
  pvtData.flatMap fun data =>
    match data.writeSet with
    | none => []
    | some writeSet =>
      if !has writeSet dig.nameSpace dig.collection || data.seqInBlock ≠ dig.seqInBlock then []
      else extractPvtRWsets writeSet dig.nameSpace dig.collection

def configInForce (dig : Digest) : Except String Config :=
  match peer.mostRecentCollectionConfigBelow dig.blockSeq dig.nameSpace with
  | .error _ =>
    .error ("cannot find recent collection config update below block " ++
      "sequence = " ++ toString dig.blockSeq ++ ", collection name = <" ++
      printed dig.collection ++ "> for chaincode <" ++
      printed dig.nameSpace ++ ">")
  | .ok none =>
    .error ("no collection config update below block sequence = <" ++
      toString dig.blockSeq ++ "> collection name = <" ++
      printed dig.collection ++ "> for chaincode <" ++
      printed dig.nameSpace ++ "> is available ")
  | .ok (some configs) =>
    match extractCollectionConfig peer dig.collection configs with
    | none =>
      .error ("no collection config was found for collection <" ++
        printed dig.collection ++ "> namespace <" ++
        printed dig.nameSpace ++ "> txID <" ++ printed dig.txId ++ ">")
    | some config => .ok config

/-- `fromLedger`.  An error for one digest is an error for all of the block. -/
def fromLedger (digests : List Digest) (blockNum : ℕ) :
    Except String (List (Digest × RWSetWithConfig Config)) :=
  match peer.getPvtDataByNum blockNum with
  | .error err =>
    .error ("wasn't able to obtain private data, block sequence number " ++
      toString blockNum ++ ", due to " ++ err)
  | .ok pvtData =>
    digests.mapM fun dig => do
      let config ← configInForce peer dig
      pure (dig, { rwSet := ledgerRWSets pvtData dig
                   collectionConfig := some config })

/-- `CollectionRWSet`, with whether the ledger was read. -/
def collectionRWSet (digests : List Digest) (blockNum : ℕ) :
    Except String (List (Digest × RWSetWithConfig Config) × Bool) :=
  match peer.ledgerHeight with
  | .error err => .error ("wasn't able to read ledger height: " ++ err)
  | .ok height =>
    if height ≤ blockNum then
      .ok (digests.filterMap (fun dig =>
        if dig.txId = [] then none
        else
          match fromTransientStore peer dig with
          | .error _ => none
          | .ok results => some (dig, results)), false)
    else
      match fromLedger peer digests blockNum with
      | .error err => .error err
      | .ok results => .ok (results, true)

variable (requester : Requester)

def accepts (config : Config) : Bool :=
  match peer.accessPolicy config with
  | .error _ => false
  | .ok accessFilter => accessFilter requester

def isEligibleByLatestConfig (dig : Digest) : Bool :=
  match peer.latestCollectionConfig dig.collection dig.nameSpace with
  | none => false
  | some config => accepts peer requester config

/-- The body of the loop of `filterNotEligible`. -/
def eligibleElement (shouldCheckLatestConfig : Bool) (requester : Requester)
    (result : Digest × RWSetWithConfig Config) : Option Element :=
  if result.2.rwSet.length = 0 then none
  else if (shouldCheckLatestConfig && isEligibleByLatestConfig peer requester result.1) ||
      result.2.collectionConfig.any (accepts peer requester) then
    some { digest := result.1, payload := result.2.rwSet }
  else none

def digestsOfBlock (digests : List Digest) (blockNum : ℕ) : List Digest :=
  (digests.filter fun dig => dig.blockSeq = blockNum).dedup

def createResponse (digests : List Digest) : List Element :=
  (digests.map Digest.blockSeq).dedup.flatMap fun blockNum =>
    match collectionRWSet peer (digestsOfBlock digests blockNum) blockNum with
    | .error _ => []
    | .ok (dig2rwSets, wasFetchedFromLedger) =>
      dig2rwSets.filterMap (eligibleElement peer wasFetchedFromLedger requester)

section

variable (dig : Digest)

section

variable (entries : List (StoredEntry Config))

def AnsweredFromStore : Prop :=
  (∃ height, peer.ledgerHeight = .ok height ∧ height ≤ dig.blockSeq) ∧
    dig.txId ≠ [] ∧ peer.getTxPvtRWSetByTxid dig.txId = .ok entries ∧
    entries.all knownTypes = true

def StoredFor (rwset : Bytes) : Prop :=
  ∃ entry ∈ entries, ∃ part, contribution peer dig entry = some part ∧
    rwset ∈ part.rwsets ∧ accepts peer requester part.config = true

end

def LedgerHasFor (rwset : Bytes) : Prop :=
  (∃ height, peer.ledgerHeight = .ok height ∧ dig.blockSeq < height) ∧
    (∃ pvtData, peer.getPvtDataByNum dig.blockSeq = .ok pvtData ∧
      rwset ∈ ledgerRWSets pvtData dig) ∧
    ((∃ config, configInForce peer dig = .ok config ∧ accepts peer requester config = true) ∨
      isEligibleByLatestConfig peer requester dig = true)

def Justified (rwset : Bytes) : Prop :=
  (∃ entries, AnsweredFromStore peer dig entries ∧ StoredFor peer requester dig entries rwset) ∨
    LedgerHasFor peer requester dig rwset

end

def GuardedBy (parts : List (Contribution Config)) (config : Config) : Prop :=
  ∃ before part after, parts = before ++ part :: after ∧ part.config = config ∧
    (∀ other ∈ before, other.endorsedAt ≤ part.endorsedAt) ∧
    ∀ other ∈ after, other.endorsedAt < part.endorsedAt

variable {config : Config} {parts : List (Contribution Config)}

theorem guardedBy_concat_iff {la : Contribution Config} :
    GuardedBy (parts ++ [la]) config ↔
      (la.config = config ∧ ∀ other ∈ parts, other.endorsedAt ≤ la.endorsedAt) ∨
      ∃ pre part post, parts = pre ++ part :: post ∧ part.config = config ∧
        (∀ other ∈ pre, other.endorsedAt ≤ part.endorsedAt) ∧
        (∀ other ∈ post, other.endorsedAt < part.endorsedAt) ∧
        la.endorsedAt < part.endorsedAt := by
  constructor
  · rintro ⟨pre, part, post, hpr, hc, hp, haf⟩
    rcases eq_nil_or_concat post with hnil | ⟨post, fn, hn⟩
    · subst hnil
      obtain ⟨heq, hla⟩ := append_inj' hpr rfl
      cases hla
      exact .inl ⟨hc, heq ▸ hp⟩
    subst hn
    have hsp : parts ++ [la] = (pre ++ part :: post) ++ [fn] := by
      simpa using hpr
    obtain ⟨heq, hla⟩ := append_inj' hsp rfl
    cases hla
    refine .inr ⟨pre, part, post, heq, hc, hp, ?_, ?_⟩
    · intro other ho
      exact haf other (by simp [ho])
    · exact haf la (by simp)
  · rintro (⟨hc, hle⟩ | ⟨pre, part, post, hpr, hc, hp, haf, hla⟩)
    · exact ⟨parts, la, [], rfl, hc, hle, by simp⟩
    refine ⟨pre, part, post ++ [la], by simp [hpr], hc, hp, ?_⟩
    intro other ho
    rcases mem_append.mp ho with hearl | heq
    · exact haf other hearl
    · rw [mem_singleton.mp heq]
      exact hla

section

variable (parts : List (Contribution Config))

theorem merged_concat (last : Contribution Config) :
    merged (parts ++ [last]) = (merged parts).add last := by
  simp [merged]

theorem merged_maxEndorsedAt :
    (∀ part ∈ parts, part.endorsedAt ≤ (merged parts).maxEndorsedAt) ∧
      (0 < (merged parts).maxEndorsedAt →
        ∃ part ∈ parts, part.endorsedAt = (merged parts).maxEndorsedAt) := by
  induction parts using List.reverseRecOn with
  | nil => simp [merged, Merge.empty]
  | append_singleton parts la ih =>
    rw [merged_concat]
    by_cases hle : (merged parts).maxEndorsedAt ≤ la.endorsedAt
    · simp only [Merge.add, hle, if_true]
      refine ⟨?_, fun _ => ⟨la, by simp, rfl⟩⟩
      intro part hpr
      rcases mem_append.mp hpr with hearl | heq
      · exact (ih.1 part hearl).trans hle
      · rw [mem_singleton.mp heq]
    simp only [Merge.add, hle, if_false]
    refine ⟨?_, ?_⟩
    · intro part hpr
      rcases mem_append.mp hpr with hearl | heq
      · exact ih.1 part hearl
      · rw [mem_singleton.mp heq]
        exact (not_le.mp hle).le
    · intro hp
      obtain ⟨part, hpr, hm⟩ := ih.2 hp
      exact ⟨part, mem_append_left _ hpr, hm⟩

end

theorem merged_collectionConfig_iff :
    (merged parts).results.collectionConfig = some config ↔ GuardedBy parts config := by
  induction parts using List.reverseRecOn with
  | nil => simp [merged, Merge.empty, GuardedBy]
  | append_singleton parts la ih =>
    obtain ⟨hbn, hat⟩ := merged_maxEndorsedAt parts
    rw [merged_concat, guardedBy_concat_iff]
    by_cases hle : (merged parts).maxEndorsedAt ≤ la.endorsedAt
    · simp only [Merge.add, hle, if_true, Option.some.injEq]
      constructor
      · intro hc
        exact .inl ⟨hc, fun other ho =>
          (hbn other ho).trans hle⟩
      · rintro (⟨hc, -⟩ | ⟨_, part, _, hpr, -, -, -, _⟩)
        · exact hc
        · have hpa := hbn part (by simp [hpr])
          omega
    · simp only [Merge.add, hle, if_false]
      rw [ih]
      obtain ⟨highest, hh, _⟩ := hat (by omega)
      constructor
      · rintro ⟨pre, part, post, hpr, hc, hp, haf⟩
        refine .inr ⟨pre, part, post, hpr, hc, hp, haf, ?_⟩
        -- the part that guards is as high as the highest one
        have hpa : highest.endorsedAt ≤ part.endorsedAt := by
          rw [hpr, mem_append, mem_cons] at hh
          rcases hh with hearl | heq | hlat
          · exact hp highest hearl
          · rw [heq]
          · exact (haf highest hlat).le
        omega
      · rintro (⟨-, ha⟩ | ⟨pre, part, post, hpr, hc, hp, haf, -⟩)
        · have hh := ha highest hh
          omega
        · exact ⟨pre, part, post, hpr, hc, hp, haf⟩

theorem merged_rwSet (parts : List (Contribution Config)) :
    (merged parts).results.rwSet = parts.flatMap Contribution.rwsets := by
  induction parts using List.reverseRecOn with
  | nil => rfl
  | append_singleton _ _ ih =>
    rw [merged_concat, flatMap_append, ← ih]
    simp [Merge.add]

variable {dig : Digest} {rwset : Bytes} {entries es : List (StoredEntry Config)}

theorem mem_merged_rwSet_iff :
    rwset ∈ (merged (es.filterMap (contribution peer dig))).results.rwSet ↔
      ∃ e ∈ es, ∃ part, contribution peer dig e = some part ∧ rwset ∈ part.rwsets := by
  simp only [merged_rwSet, mem_flatMap, mem_filterMap]
  constructor
  · rintro ⟨part, ⟨e, he, hpr⟩, hrw⟩
    exact ⟨e, he, part, hpr, hrw⟩
  · rintro ⟨e, he, part, hpr, hrw⟩
    exact ⟨part, ⟨e, he, hpr⟩, hrw⟩

variable {requester : Requester} {element : Element}

theorem eligibleElement_eq_some_iff {checkLatest : Bool} {res : RWSetWithConfig Config} :
    eligibleElement peer checkLatest requester (dig, res) = some element ↔ res.rwSet ≠ [] ∧
      ((checkLatest = true ∧ isEligibleByLatestConfig peer requester dig = true) ∨
        ∃ config, res.collectionConfig = some config ∧ accepts peer requester config = true) ∧
      element = ⟨dig, res.rwSet⟩ := by
  unfold eligibleElement
  simp only [length_eq_zero_iff]
  split_ifs with hn hel
  · simp only [ne_eq, hn, not_true_eq_false, false_and]
  · simp only [Bool.or_eq_true, Bool.and_eq_true, Option.any_eq_true] at hel
    rw [Option.some.injEq, eq_comm]
    exact ⟨fun heq => ⟨hn, hel, heq⟩, fun ha => ha.2.2⟩
  · simp only [Bool.or_eq_true, Bool.and_eq_true, Option.any_eq_true] at hel
    simp only [hel, false_and, and_false]

theorem fromTransientStore_ok_iff {res : RWSetWithConfig Config} :
    fromTransientStore peer dig = .ok res ↔
      ∃ es, peer.getTxPvtRWSetByTxid dig.txId = .ok es ∧ es.all knownTypes = true ∧
        res = (merged (es.filterMap (contribution peer dig))).results := by
  unfold fromTransientStore
  cases hrd : peer.getTxPvtRWSetByTxid dig.txId with
  | error => simp
  | ok =>
    simp only [Except.ok.injEq, exists_eq_left']
    split_ifs with hkn
    · rw [Except.ok.injEq, eq_comm]
      exact ⟨fun heq => ⟨hkn, heq⟩, And.right⟩
    · simp only [hkn, false_and, reduceCtorEq]

variable {digests : List Digest} {results res : List (Digest × RWSetWithConfig Config)}

theorem fromLedger_mem {blockNum : ℕ} (hl : fromLedger peer digests blockNum = .ok res)
    {r : RWSetWithConfig Config} (hm : (dig, r) ∈ res) :
    dig ∈ digests ∧ ∃ pvtData config, peer.getPvtDataByNum blockNum = .ok pvtData ∧
      configInForce peer dig = .ok config ∧
      r = ⟨ledgerRWSets pvtData dig, some config⟩ := by
  unfold fromLedger at hl
  cases hrd : peer.getPvtDataByNum blockNum with
  | error =>
    rw [hrd] at hl
    cases hl
  | ok pvtData =>
    rw [hrd] at hl
    obtain ⟨_, hit, htr⟩ := (Except.of_mapM hl).2 _ hm
    obtain ⟨config, hc, hpu⟩ := of_bind htr
    cases hpu
    exact ⟨hit, pvtData, config, rfl, hc, rfl⟩

theorem mem_digestsOfBlock_iff {blockNum : ℕ} :
    dig ∈ digestsOfBlock digests blockNum ↔ dig ∈ digests ∧ dig.blockSeq = blockNum := by
  simp [digestsOfBlock]

theorem mem_createResponse_iff :
    element ∈ createResponse peer requester digests ↔
      ∃ blockNum ∈ digests.map Digest.blockSeq, ∃ dig2rwSets fetched,
        collectionRWSet peer (digestsOfBlock digests blockNum) blockNum =
          .ok (dig2rwSets, fetched) ∧
        ∃ r ∈ dig2rwSets, eligibleElement peer fetched requester r = some element := by
  unfold createResponse
  rw [mem_flatMap]
  constructor
  · rintro ⟨blockNum, hb, hel⟩
    refine ⟨blockNum, mem_dedup.mp hb, ?_⟩
    cases hrd : collectionRWSet peer (digestsOfBlock digests blockNum) blockNum with
    | error =>
      rw [hrd] at hel
      cases hel
    | ok answer =>
      rw [hrd] at hel
      exact ⟨answer.1, answer.2, rfl, mem_filterMap.mp hel⟩
  · rintro ⟨blockNum, hb, _, _, hrd, hel⟩
    refine ⟨blockNum, mem_dedup.mpr hb, ?_⟩
    rw [hrd]
    exact mem_filterMap.mpr hel

variable {blockNum height : ℕ}

theorem collectionRWSet_ahead (digests : List Digest)
    (hht : peer.ledgerHeight = .ok height) (hah : height ≤ blockNum) :
    ∃ res, collectionRWSet peer digests blockNum = .ok (res, false) ∧
      ∀ dig result, (dig, result) ∈ res ↔
        dig ∈ digests ∧ dig.txId ≠ [] ∧ fromTransientStore peer dig = .ok result := by
  refine ⟨_, by simp only [collectionRWSet, hht, hah, if_true]; rfl, ?_⟩
  intro dig _
  rw [mem_filterMap]
  constructor
  · rintro ⟨it, hit, hg⟩
    split_ifs at hg with htx
    cases hrd : fromTransientStore peer it with
    | error =>
      rw [hrd] at hg
      cases hg
    | ok =>
      rw [hrd] at hg
      cases hg
      exact ⟨hit, htx, hrd⟩
  · rintro ⟨hd, htx, hrd⟩
    exact ⟨dig, hd, by simp [htx, hrd]⟩

/-- The guard of a request accepts the requester only if every write set that
it stands for was stored with a configuration that does. -/
def GuardSpeaksForAll (requester : Requester) (dig : Digest) : Prop :=
  ∀ entries, AnsweredFromStore peer dig entries →
    ∀ config, GuardedBy (entries.filterMap (contribution peer dig)) config →
      accepts peer requester config = true →
      ∀ entry ∈ entries, ∀ part, contribution peer dig entry = some part →
        ∀ rwset ∈ part.rwsets, StoredFor peer requester dig entries rwset

theorem ledger_justified (hht : peer.ledgerHeight = .ok height) (hcm : blockNum < height)
    (hl : fromLedger peer (digestsOfBlock digests blockNum) blockNum = .ok res)
    {r : Digest × RWSetWithConfig Config} (hr : r ∈ res)
    (hel : eligibleElement peer true requester r = some element) (hrw : rwset ∈ element.payload) :
    LedgerHasFor peer requester element.digest rwset := by
  obtain ⟨_, _⟩ := r
  obtain ⟨hd, pvtData, config, hrd, hc, hvl⟩ := fromLedger_mem peer hl hr
  obtain ⟨-, heg, heq⟩ := (eligibleElement_eq_some_iff peer).mp hel
  subst heq hvl
  have hb := (mem_digestsOfBlock_iff.mp hd).2
  refine ⟨⟨height, hht, hb ▸ hcm⟩, ⟨pvtData, hb ▸ hrd, hrw⟩, ?_⟩
  rcases heg with ⟨-, ht⟩ | ⟨_, hgr, ha⟩
  · exact .inr ht
  · cases hgr
    exact .inl ⟨config, hc, ha⟩

theorem store_justified (hg : ∀ dig ∈ digests, GuardSpeaksForAll peer requester dig)
    (hht : peer.ledgerHeight = .ok height) (hah : height ≤ blockNum)
    {values : RWSetWithConfig Config} (hd : dig ∈ digestsOfBlock digests blockNum)
    (htx : dig.txId ≠ []) (hrd : fromTransientStore peer dig = .ok values)
    (hel : eligibleElement peer false requester (dig, values) =
      some element) (hrw : rwset ∈ element.payload) :
    ∃ es, AnsweredFromStore peer element.digest es ∧
      StoredFor peer requester element.digest es rwset := by
  obtain ⟨hrq, hb⟩ := mem_digestsOfBlock_iff.mp hd
  obtain ⟨es, hent, hkn, hvl⟩ := (fromTransientStore_ok_iff peer).mp hrd
  obtain ⟨-, hgr, heq⟩ := (eligibleElement_eq_some_iff peer).mp hel
  subst heq hvl
  have han : AnsweredFromStore peer dig es := ⟨⟨height, hht, hb ▸ hah⟩, htx, hent, hkn⟩
  refine ⟨es, han, ?_⟩
  obtain ⟨e, he, part, hpr, hrw⟩ := (mem_merged_rwSet_iff peer).mp hrw
  rcases hgr with ⟨hfl, -⟩ | ⟨config, hc, ha⟩
  · cases hfl
  · exact hg dig hrq es han config (merged_collectionConfig_iff.mp hc) ha e he part hpr rwset hrw

theorem store_returned (hd : dig ∈ digests) (han : AnsweredFromStore peer dig es)
    (hgr : GuardedBy (es.filterMap (contribution peer dig)) config)
    (ha : accepts peer requester config = true)
    {e : StoredEntry Config} (he : e ∈ es) {part : Contribution Config}
    (hpr : contribution peer dig e = some part) (hrw : rwset ∈ part.rwsets) :
    ∃ element ∈ createResponse peer requester digests,
      element.digest = dig ∧ rwset ∈ element.payload := by
  obtain ⟨⟨_, hht, hah⟩, htxId, hrd, hkn⟩ := han
  obtain ⟨res, hrs, hr⟩ := collectionRWSet_ahead peer (digestsOfBlock digests dig.blockSeq) hht hah
  let values := (merged (es.filterMap (contribution peer dig))).results
  have hrw : rwset ∈ values.rwSet := (mem_merged_rwSet_iff peer).mpr ⟨e, he, part, hpr, hrw⟩
  have hvl : (dig, values) ∈ res :=
    (hr dig values).mpr ⟨mem_digestsOfBlock_iff.mpr ⟨hd, rfl⟩, htxId,
      (fromTransientStore_ok_iff peer).mpr ⟨es, hrd, hkn, rfl⟩⟩
  have hel : eligibleElement peer false requester (dig, values) = some ⟨dig, values.rwSet⟩ :=
    (eligibleElement_eq_some_iff peer).mpr ⟨ne_nil_of_mem hrw,
      Or.inr ⟨config, merged_collectionConfig_iff.mpr hgr, ha⟩, rfl⟩
  refine ⟨⟨dig, values.rwSet⟩, ?_, rfl, hrw⟩
  exact (mem_createResponse_iff peer).mpr
    ⟨dig.blockSeq, mem_map_of_mem hd, res, false, hrs, (dig, values), hvl, hel⟩

/-- Every write set of every answer is justified exactly when the guards speak
for all that they let through. -/
theorem createResponse_justified_iff {requester : Requester} {digests : List Digest} :
    (∀ element ∈ createResponse peer requester digests,
        ∀ rwset ∈ element.payload, Justified peer requester element.digest rwset) ↔
      ∀ dig ∈ digests, GuardSpeaksForAll peer requester dig := by
  constructor
  · intro hall dig hdig entries han config hgr hacc e hent part hpr rwset hrw
    obtain ⟨element, hel, heq, hret⟩ := store_returned peer hdig han hgr hacc hent hpr hrw
    have hjs := hall element hel rwset hret
    rw [heq] at hjs
    rcases hjs with ⟨_, hos, hstr⟩ | ⟨hldg, -⟩
    · have heq := hos.2.2.1.symm.trans han.2.2.1
      cases heq
      exact hstr
    -- the ledger does not have the block
    obtain ⟨_, hht, _⟩ := han.1
    obtain ⟨_, hoth, _⟩ := hldg
    rw [hht] at hoth
    cases hoth
    omega
  · intro hgrd _ hel _ hrw
    obtain ⟨blockNum, -, results, fetched, hrs, ⟨dig, values⟩, hvals,
      heligible⟩ := (mem_createResponse_iff peer).mp hel
    cases hht : peer.ledgerHeight with
    | error =>
      rw [collectionRWSet, hht] at hrs
      cases hrs
    | ok height =>
      by_cases hah : height ≤ blockNum
      · obtain ⟨_, hstr, hmem⟩ := collectionRWSet_ahead peer
          (digestsOfBlock digests blockNum) hht hah
        rw [hstr] at hrs
        cases hrs
        obtain ⟨hdig, htx, hrd⟩ := (hmem dig values).mp hvals
        exact .inl (store_justified peer hgrd hht hah hdig htx hrd heligible hrw)
      simp only [collectionRWSet, hht, hah, if_false] at hrs
      cases hldg : fromLedger peer (digestsOfBlock digests blockNum) blockNum with
      | error =>
        rw [hldg] at hrs
        cases hrs
      | ok =>
        rw [hldg] at hrs
        cases hrs
        exact .inr (ledger_justified peer hht (not_le.mp hah) hldg hvals heligible hrw)

/-! ## A configuration sent by the requester

Configurations are lists of members.  The peer is no endorser: all it has are
two messages about one transaction, the second one from member `3`, who is not
in the collection. -/

def receivingPeer (messages : List (PrivatePayload (List ℕ))) : Peer (List ℕ) ℕ where
  configName _ := [99]
  accessPolicy members := .ok fun requester => members.contains requester
  ledgerHeight := .ok 5
  getTxPvtRWSetByTxid txId :=
    .ok (((messages.filterMap privateDataMessage).filter fun stored =>
      stored.1 = txId).map Prod.snd)
  getPvtDataByNum _ := .ok []
  mostRecentCollectionConfigBelow _ _ := .ok none
  latestCollectionConfig _ _ := none

def endorserMessage : PrivatePayload (List ℕ) where
  collectionName := [99]
  nameSpace := [110]
  txId := [1]
  privateRwset := [7]
  collectionConfigs := [some [1, 2]]

def outsiderMessage : PrivatePayload (List ℕ) :=
  { endorserMessage with privateRwset := [8], collectionConfigs := [some [3]] }

def outsiderDigest : Digest := ⟨[1], 5, [110], [99], 0⟩

theorem receivedParts_refuse :
    ∀ part ∈ ((([endorserMessage, outsiderMessage].filterMap privateDataMessage).filter fun sd =>
          sd.1 = outsiderDigest.txId).map Prod.snd).filterMap
        (contribution (receivingPeer [endorserMessage, outsiderMessage]) outsiderDigest),
      [7] ∈ part.rwsets → accepts
        (receivingPeer [endorserMessage, outsiderMessage]) 3 part.config =
          false := by
  decide

theorem outsider_reads_collection :
    ¬ ∀ element ∈ createResponse
        (receivingPeer [endorserMessage, outsiderMessage]) 3 [outsiderDigest],
      ∀ rwset ∈ element.payload, Justified
        (receivingPeer [endorserMessage, outsiderMessage]) 3 element.digest
        rwset := by
  intro hall
  have hjs := hall ⟨outsiderDigest, [[7], [8]]⟩ (by decide) [7] (by decide)
  rcases hjs with ⟨_, han, hstr⟩ | ⟨hldg, -⟩
  · cases han.2.2.1
    obtain ⟨e, hent, part, hpr, hrw, hacc⟩ := hstr
    have hms := receivedParts_refuse part (mem_filterMap.mpr ⟨e, hent, hpr⟩) hrw
    rw [hms] at hacc
    cases hacc
  · obtain ⟨_, hht, hcm⟩ := hldg
    cases hht
    exact absurd hcm (by decide)

end FabricSequencer.PvtDataPull
