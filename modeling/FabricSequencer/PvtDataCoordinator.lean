import FabricSequencer.BlockData
import FabricSequencer.ReadWriteSet
import Mathlib.Data.List.ReduceOption

/-!
# The private-data stage of a block commit

`coordinator.StoreBlock` collects the private data that the transactions of a
block refer to.  `getTxPvtdataInfoFromBlock` parses every transaction, valid or
not, and looks up the configuration of each collection that it writes;
`RetrievePvtdata` decides which of them this peer is to have and gets them from
the block's payload, the transient store or other peers.

The decoders of the messages are given, and so are the configurations in the
ledger and what the transient store and the fetcher find.  The endorsers, which
only select the peers to ask, are left out.
-/

namespace FabricSequencer

namespace Coordinator

open Protoutil Framing List Outcome

/-! ## Parsing a transaction -/

/-- The part of a `ChaincodeActionPayload` that is read here. -/
structure ChaincodeActionPayload where
  action : Option (Option Bytes)

structure TxCodec where
  unmarshalTransaction : Bytes → Except String (List Bytes)
  unmarshalChaincodeActionPayload : Bytes → Except String ChaincodeActionPayload
  unmarshalProposalResponsePayload : Bytes → Except String (Option Bytes)
  unmarshalChaincodeAction : Bytes → Except String Bytes
  txRwSetFromProtoBytes : Bytes → Except String TxRwSet

structure TxInfo where
  channelID : GoString
  txID : GoString
  txRWSet : TxRwSet

def headerTypeEndorserTransaction : ℤ := 3

/-- `GetPayloads`; the results of the chaincode action are returned. -/
def getPayloads (codec : TxCodec) (txAction : Bytes) : Outcome Bytes := do
  let ccPayload ← Outcome.returned (codec.unmarshalChaincodeActionPayload txAction)
  match ccPayload.action with
  | some (some proposalResponsePayload) =>
    let extension ← Outcome.returned
      (codec.unmarshalProposalResponsePayload proposalResponsePayload)
    match extension with
    | none => .error (.error "response payload is missing extension")
    | some extension => Outcome.returned (codec.unmarshalChaincodeAction extension)
  | _ => .error (.error "no payload in ChaincodeActionPayload")

/-- `GetActionFromEnvelopeMsg`, after the payload has been read. -/
def getActionFromPayload (codec : TxCodec) (payload : Payload) : Outcome Bytes := do
  let actions ← Outcome.returned (codec.unmarshalTransaction payload.data)
  match actions with
  | [] => .error (.error "at least one TransactionAction required")
  | action :: _ => getPayloads codec action

/-- `getTxInfoFromTransactionBytes`.  For a nil action the source returns the
error of the call before, which is nil, and no information. -/
def getTxInfoFromTransactionBytes (codec : TxCodec) (envBytes : Bytes) :
    Outcome (Option TxInfo) := do
  let env ← unmarshalled "Envelope" (unmarshal envBytes)
  let payload ← unmarshalled "Payload" (unmarshalPayload env.payload)
  match payload.header with
  | none => .error (.error "payload header is nil")
  | some header =>
    let chdr ← unmarshalled "ChannelHeader" (unmarshalChannelHeader (header.channelHeader.getD []))
    if chdr.type ≠ headerTypeEndorserTransaction then
      .error (.error "header type is not an endorser transaction")
    else
      let results ← getActionFromPayload codec payload
      let actions ← Outcome.returned (codec.unmarshalTransaction payload.data)
      match actions with
      | [] => .error (.panic "index out of range [0] with length 0")
      | action :: _ =>
        let ccActionPayload ← Outcome.returned (codec.unmarshalChaincodeActionPayload action)
        match ccActionPayload.action with
        | none => .ok none
        | some _ =>
          let txRWSet ← Outcome.returned (codec.txRwSetFromProtoBytes results)
          .ok (some { channelID := chdr.channelId
                      txID := chdr.txId
                      txRWSet := txRWSet })

variable {codec : TxCodec}

theorem getPayloads_action {txAction results : Bytes}
    (hg : getPayloads codec txAction = .ok results) :
    ∃ ccPayload response,
      codec.unmarshalChaincodeActionPayload txAction = .ok ccPayload ∧
        ccPayload.action = some response := by
  obtain ⟨ccPayload, hp, hg⟩ := of_bind hg
  split at hg
  next response hc =>
    exact ⟨ccPayload, some response, returned_eq_ok_iff.mp hp, hc⟩
  · cases hg

theorem getActionFromPayload_actions {pay : Payload}
    {results : Bytes} (hg : getActionFromPayload codec pay = .ok results) :
    ∃ action tl, codec.unmarshalTransaction pay.data = .ok (action :: tl) ∧
      getPayloads codec action = .ok results := by
  obtain ⟨_, hc, hg⟩ := of_bind hg
  split at hg
  · cases hg
  next action tl =>
    exact ⟨action, tl, returned_eq_ok_iff.mp hc, hg⟩

theorem noPanic_unmarshalled {α : Type} (nm : String) (r : Except ProtoWire.WireError α) :
    (unmarshalled nm r).NoPanic := by
  cases r with
  | error => exact noPanic_error _
  | ok => exact noPanic_ok _

theorem noPanic_getPayloads (codec : TxCodec) (txAction : Bytes) :
    (getPayloads codec txAction).NoPanic := by
  apply (noPanic_returned _).bind
  intro _ _
  split
  · apply (noPanic_returned _).bind
    intro _ _
    split
    · exact noPanic_error _
    · exact noPanic_returned _
  · exact noPanic_error _

theorem noPanic_getActionFromPayload (codec : TxCodec) (pay : Payload) :
    (getActionFromPayload codec pay).NoPanic := by
  apply (noPanic_returned _).bind
  intro _ _
  split
  · exact noPanic_error _
  · exact noPanic_getPayloads codec _

/-- The tail of the parser, once `GetActionFromEnvelope` has accepted the
transaction: there is an action, and it is not nil. -/
theorem parse_tail {pay : Payload} {results : Bytes}
    (hg : getActionFromPayload codec pay = .ok results) :
    ∃ action tl ccPayload response,
      returned (codec.unmarshalTransaction pay.data) = .ok (action :: tl) ∧
        returned (codec.unmarshalChaincodeActionPayload action) = .ok ccPayload ∧
        ccPayload.action = some response := by
  obtain ⟨action, tl, hc, hpy⟩ := getActionFromPayload_actions hg
  obtain ⟨ccPayload, response, hcp, hac⟩ := getPayloads_action hpy
  exact ⟨action, tl, ccPayload, response, returned_eq_ok_iff.mpr hc,
    returned_eq_ok_iff.mpr hcp, hac⟩

def Reports {α : Type} (outcome : Outcome (Option α)) : Prop := outcome.NoPanic ∧ outcome ≠ .ok none

theorem Reports.bind {α β : Type} {first : Outcome α} {next : α → Outcome (Option β)}
    (hf : first.NoPanic) (hnx : ∀ v, first = .ok v → Reports (next v)) :
    Reports (first >>= next) := by
  refine ⟨hf.bind fun v hval => (hnx v hval).1, ?_⟩
  intro hno
  obtain ⟨v, hval, hno⟩ := of_bind hno
  exact (hnx v hval).2 hno

theorem reports_error {α : Type} (text : String) :
    Reports (.error (.error text) : Outcome (Option α)) :=
  ⟨noPanic_error text, by simp⟩

theorem reports_getTxInfo (codec : TxCodec) (envBytes : Bytes) :
    Reports (getTxInfoFromTransactionBytes codec envBytes) := by
  apply Reports.bind (noPanic_unmarshalled _ _)
  intro _ _
  apply Reports.bind (noPanic_unmarshalled _ _)
  intro pay _
  split
  · exact reports_error _
  apply Reports.bind (noPanic_unmarshalled _ _)
  intro _ _
  split_ifs
  · exact reports_error _
  apply Reports.bind (noPanic_getActionFromPayload codec pay)
  intro _ hr
  obtain ⟨_, _, _, _, hc, hcp, hac⟩ := parse_tail hr
  rw [hc]
  apply Reports.bind (noPanic_ok _)
  intro _ heq
  cases heq
  dsimp only
  rw [hcp]
  apply Reports.bind (noPanic_ok _)
  intro _ heq
  cases heq
  rw [hac]
  apply Reports.bind (noPanic_returned _)
  intro _ _
  exact ⟨noPanic_ok _, by simp⟩

structure SimpleCollection where
  memberOrgs : List GoString
  acceptsSelf : Bool

structure Support (Config : Type) extends TxCodec where
  collectionInfo : GoString → GoString → GoString → Option Config
  newSimpleCollection : Config → Except String SimpleCollection
  mspID : GoString
  storePvtdataOfInvalidTx : Bool
  skipPullingInvalidTransactions : Bool
  hash : Bytes → Bytes

structure CollectionPvtdataInfo (Config : Type) where
  nameSpace : GoString
  collection : GoString
  expectedHash : Bytes
  collectionConfig : Config

structure TxPvtdataInfo (Config : Type) where
  txID : GoString
  invalid : Bool
  seqInBlock : ℕ
  collectionPvtdataInfo : List (CollectionPvtdataInfo Config)

def containsWrites (collection : CollHashedRwSet) : Bool :=
  !(collection.hashedRwSet.hashedWrites.isEmpty && collection.hashedRwSet.metadataWrites.isEmpty)

def writtenCollections (txRWSet : TxRwSet) : List (GoString × CollHashedRwSet) :=
  txRWSet.nsRwSets.flatMap fun ns =>
    (ns.collHashedRwSets.filter containsWrites).map fun collection =>
      (ns.nameSpace, collection)

variable {Config : Type} (support sup : Support Config)

def retrieveCollectionConfig (channel nameSpace collection : GoString) : Outcome Config :=
  match support.collectionInfo channel nameSpace collection with
  | none =>
    .error (.error ("collection " ++ printed channel ++ "/" ++
      printed nameSpace ++ "/" ++ printed collection ++
      " could not be found"))
  | some config => .ok config

def collectionPvtdataInfo (channel : GoString) (written : GoString × CollHashedRwSet) :
    Outcome (CollectionPvtdataInfo Config) := do
  let colConfig ← retrieveCollectionConfig support channel written.1 written.2.collectionName
  pure { nameSpace := written.1
         collection := written.2.collectionName
         expectedHash := written.2.pvtRwSetHash.getD []
         collectionConfig := colConfig }

/-- `peer.TxValidationCode_VALID`. -/
def txValid : Byte := 0

variable (seqInBlock : ℕ)

def txPvtdataInfo (tx : Bytes × Byte) : Outcome (Option (TxPvtdataInfo Config)) :=
  match getTxInfoFromTransactionBytes support.toTxCodec tx.1 with
  | .error (.error _) => .ok none
  | .error (.panic text) => .error (.panic text)
  | .ok none => .error (.panic "invalid memory address or nil pointer dereference")
  | .ok (some txInfo) => do
      let colPvtdataInfo ← (writtenCollections txInfo.txRWSet).mapM
        (collectionPvtdataInfo support txInfo.channelID)
      pure (some { txID := txInfo.txID
                   invalid := tx.2 ≠ txValid
                   seqInBlock := seqInBlock
                   collectionPvtdataInfo := colPvtdataInfo })

/-- `getTxPvtdataInfoFromBlock`; the filter is the metadata entry, if the block
has it. -/
def getTxPvtdataInfoFromBlock (data : List Bytes) (filter : Option Bytes) :
    Outcome (List (TxPvtdataInfo Config)) :=
  match filter with
  | none =>
    .error (.error ("Block.Metadata is nil or Block.Metadata lacks a Tx " ++ "filter bitmap"))
  | some txsFilter =>
    if txsFilter.length ≠ data.length then
      .error (.error ("block data size(" ++ toString data.length ++
        ") is different from Tx filter size(" ++
        toString txsFilter.length ++ ")"))
    else do
      let infos ← (data.zip txsFilter).zipIdx.mapM fun tx =>
        txPvtdataInfo support tx.2 tx.1
      pure infos.reduceOption

/-! ## Retrieving the data -/

structure RwSetKey where
  txID : GoString
  seqInBlock : ℕ
  nameSpace : GoString
  collection : GoString
deriving DecidableEq

structure MissingKey where
  key : RwSetKey
  invalid : Bool
  expectedHash : Bytes

/-- `pvtdataRetrievalInfo`, with the data found so far. -/
structure RetrievalInfo where
  remaining : List MissingKey
  found : List (RwSetKey × Bytes)
  toReconcileLater : List RwSetKey
  ineligible : List RwSetKey

def RetrievalInfo.empty : RetrievalInfo := ⟨[], [], [], []⟩

variable (info : RetrievalInfo) (tx : TxPvtdataInfo Config)

/-- A collection of a transaction in `computeEligibility`.  A second write set
of the same collection takes the place of the first. -/
def RetrievalInfo.addCollection (colInfo : CollectionPvtdataInfo Config) : Outcome RetrievalInfo :=
  match support.newSimpleCollection colInfo.collectionConfig with
  | .error err => .error (.error err)
  | .ok policy =>
    let key : RwSetKey :=
      { txID := tx.txID, seqInBlock := tx.seqInBlock
        nameSpace := colInfo.nameSpace, collection := colInfo.collection }
    if support.mspID ∈ policy.memberOrgs ∨ policy.acceptsSelf then
      .ok { info with
        remaining := info.remaining.filter (·.key ≠ key) ++
          [{ key := key, invalid := tx.invalid
             expectedHash := colInfo.expectedHash }] }
    else
      .ok { info with
        ineligible := info.ineligible.filter (· ≠ key) ++ [key] }

def RetrievalInfo.addTx : Outcome RetrievalInfo :=
  if tx.invalid ∧ ¬ support.storePvtdataOfInvalidTx then .ok info
  else
    tx.collectionPvtdataInfo.foldlM (fun info colInfo => info.addCollection support tx colInfo) info

section

variable (txs : List (TxPvtdataInfo Config))

def computeEligibility : Outcome RetrievalInfo :=
  txs.foldlM (fun info tx => info.addTx support tx) .empty

def RetrievalInfo.offer (reconcile : Bool) (key : RwSetKey) (rwset : Bytes) : RetrievalInfo :=
  match info.remaining.find? fun missing => missing.key = key with
  | none => info
  | some missing =>
    let remaining := info.remaining.filter (·.key ≠ key)
    if support.hash rwset = missing.expectedHash then
      { info with
        remaining := remaining
        found := info.found ++ [(key, rwset)] }
    else if reconcile then
      { info with
        remaining := remaining
        toReconcileLater := info.toReconcileLater ++ [key] }
    else info

structure Prefetched where
  seqInBlock : ℕ
  nameSpace : GoString
  collection : GoString
  rwset : Bytes

def getTxIDBySeqInBlock : GoString :=
  match txs.find? fun tx => tx.seqInBlock = seqInBlock with
  | none => []
  | some tx => tx.txID

def populateFromCache (prefetched : List Prefetched) (info : RetrievalInfo) : RetrievalInfo :=
  prefetched.foldl (fun info data =>
      let txID := getTxIDBySeqInBlock data.seqInBlock txs
      if txID = [] then info
      else
        info.offer support true
          { txID := txID, seqInBlock := data.seqInBlock
            nameSpace := data.nameSpace, collection := data.collection }
          data.rwset)
    info

end

def populateFromTransientStore (stored : RwSetKey → List Bytes)
    (info : RetrievalInfo) : RetrievalInfo :=
  info.remaining.foldl (fun info missing =>
      (stored missing.key).foldl
        (fun info rwset => info.offer support false missing.key rwset) info)
    info

structure Fetched where
  available : List (RwSetKey × Bytes)
  purged : List RwSetKey

/-- `populateFromRemotePeers`, for every round until nothing is left to be
asked for or the time is over; a round may fail. -/
def populateFromRemotePeers : List (Option Fetched) → RetrievalInfo → RetrievalInfo
  | [], info => info
  | round :: rounds, info =>
    let asked := info.remaining.filter fun missing =>
      !(missing.invalid && support.skipPullingInvalidTransactions)
    if asked.isEmpty then info
    else
      match round with
      | none => populateFromRemotePeers rounds info
      | some fetched =>
        let filled := fetched.available.foldl
          (fun info data => info.offer support true data.1 data.2) info
        populateFromRemotePeers rounds
          { filled with
            remaining := filled.remaining.filter fun missing =>
              missing.key ∉ fetched.purged }

structure Sources where
  prefetched : List Prefetched
  stored : RwSetKey → List Bytes
  rounds : List (Option Fetched)

/-- `BlockPvtdata`: the write sets, and the missing ones with whether this peer
is to have them. -/
structure BlockPvtdata where
  pvtData : List (RwSetKey × Bytes)
  missingPvtData : List (RwSetKey × Bool)

def prepareBlockPvtdata : BlockPvtdata where
  pvtData := info.found
  missingPvtData :=
    info.toReconcileLater.map (·, true) ++
      info.remaining.map (fun missing => (missing.key, true)) ++
      info.ineligible.map (·, false)

variable (sources : Sources)

def retrievePvtdata (txs : List (TxPvtdataInfo Config)) : Outcome BlockPvtdata := do
  let info ← computeEligibility support txs
  let cached := populateFromCache support txs sources.prefetched info
  let local_ := populateFromTransientStore support sources.stored cached
  pure (prepareBlockPvtdata (populateFromRemotePeers support sources.rounds local_))

def pvtDataStage (data : List Bytes) (filter : Option Bytes) : Outcome BlockPvtdata := do
  let pvtdataToRetrieve ← getTxPvtdataInfoFromBlock support data filter
  retrievePvtdata support sources pvtdataToRetrieve

/-! ## When the stage succeeds -/

/-- A transaction that does not make the stage fail: each collection that it
writes has a configuration, which can be used if its data is to be stored. -/
def Harmless (tx : Bytes × Byte) : Prop :=
  ∀ txInfo, getTxInfoFromTransactionBytes support.toTxCodec tx.1 = .ok (some txInfo) →
    ∀ written ∈ writtenCollections txInfo.txRWSet, ∃ config,
      support.collectionInfo txInfo.channelID written.1 written.2.collectionName = some config ∧
        (tx.2 = txValid ∨ support.storePvtdataOfInvalidTx = true →
          ∃ policy, support.newSimpleCollection config = .ok policy)

variable {support sup}

theorem exists_collectionPvtdataInfo_iff {channel : GoString}
    {wr : GoString × CollHashedRwSet} {info : CollectionPvtdataInfo Config} :
    collectionPvtdataInfo sup channel wr = .ok info ↔
      ∃ config, sup.collectionInfo channel wr.1 wr.2.collectionName = some config ∧
        info = { nameSpace := wr.1
                 collection := wr.2.collectionName
                 expectedHash := wr.2.pvtRwSetHash.getD []
                 collectionConfig := config } := by
  unfold collectionPvtdataInfo retrieveCollectionConfig
  cases sup.collectionInfo channel wr.1 wr.2.collectionName with
  | none =>
    constructor
    · intro hin
      cases hin
    · rintro ⟨_, hc, -⟩
      cases hc
  | some config =>
    constructor
    · intro hin
      cases hin
      exact ⟨config, rfl, rfl⟩
    · rintro ⟨_, hg, rfl⟩
      cases hg
      rfl

theorem txPvtdataInfo_of_parsed {seqInBlock : ℕ} {tx : Bytes × Byte} {txInfo : TxInfo}
    (hprs : getTxInfoFromTransactionBytes sup.toTxCodec tx.1 = .ok (some txInfo))
    {result : Option (TxPvtdataInfo Config)} :
    txPvtdataInfo sup seqInBlock tx = .ok result ↔
      ∃ cols, (writtenCollections txInfo.txRWSet).mapM
          (collectionPvtdataInfo sup txInfo.channelID) = .ok cols ∧
        result = some { txID := txInfo.txID
                        invalid := tx.2 ≠ txValid
                        seqInBlock := seqInBlock
                        collectionPvtdataInfo := cols } := by
  rw [txPvtdataInfo, hprs]
  dsimp only
  rw [Except.bind_eq_ok_iff]
  apply exists_congr
  intro cols
  apply and_congr_right'
  constructor
  · intro hpu
    exact (Except.ok.inj hpu).symm
  · intro hr
    rw [hr]
    rfl

theorem txPvtdataInfo_of_not_parsed {seqInBlock : ℕ} {tx : Bytes × Byte}
    (hp : ∀ txInfo, getTxInfoFromTransactionBytes sup.toTxCodec tx.1 ≠ .ok (some txInfo)) :
    txPvtdataInfo sup seqInBlock tx = .ok none := by
  obtain ⟨hn, ht⟩ := reports_getTxInfo sup.toTxCodec tx.1
  unfold txPvtdataInfo
  rcases hr : getTxInfoFromTransactionBytes sup.toTxCodec tx.1 with (text | text) | (_ | txInfo)
  · rfl
  · exact absurd hr (hn text)
  · exact absurd hr ht
  · exact absurd hr (hp txInfo)

theorem noPanic_txPvtdataInfo (tx : Bytes × Byte) : (txPvtdataInfo sup seqInBlock tx).NoPanic := by
  by_cases hp : ∃ txInfo, getTxInfoFromTransactionBytes sup.toTxCodec tx.1 = .ok (some txInfo)
  · obtain ⟨_, hp⟩ := hp
    rw [txPvtdataInfo, hp]
    apply NoPanic.bind
    · apply NoPanic.mapM
      intro _ _
      apply NoPanic.bind
      · unfold retrieveCollectionConfig
        split
        · exact noPanic_error _
        · exact noPanic_ok _
      · intro _ _
        exact noPanic_ok _
    · intro _ _
      exact noPanic_ok _
  · rw [txPvtdataInfo_of_not_parsed (not_exists.mp hp)]
    exact noPanic_ok _

def Usable (support : Support Config) (tx : TxPvtdataInfo Config) : Prop :=
  tx.invalid = false ∨ support.storePvtdataOfInvalidTx = true →
    ∀ colInfo ∈ tx.collectionPvtdataInfo, ∃ policy,
      support.newSimpleCollection colInfo.collectionConfig = .ok policy

theorem exists_addCollection_iff (colInfo : CollectionPvtdataInfo Config) :
    (∃ next, info.addCollection sup tx colInfo = .ok next) ↔
      ∃ policy, sup.newSimpleCollection colInfo.collectionConfig = .ok policy := by
  unfold RetrievalInfo.addCollection
  cases sup.newSimpleCollection colInfo.collectionConfig with
  | error => simp
  | ok =>
    dsimp only
    split_ifs <;> simp

theorem exists_addTx_iff : (∃ next, info.addTx sup tx = .ok next) ↔ Usable sup tx := by
  unfold RetrievalInfo.addTx Usable
  split_ifs with hskipped
  · refine iff_of_true ⟨info, rfl⟩ ?_
    rintro (hok | hstore)
    · rw [hskipped.1] at hok
      cases hok
    · exact absurd hstore hskipped.2
  rw [Except.exists_foldlM_iff (fun info colInfo => exists_addCollection_iff info tx colInfo)]
  have hnd : tx.invalid = false ∨ sup.storePvtdataOfInvalidTx = true := by
    cases hn : tx.invalid with
    | false => exact .inl rfl
    | true =>
      right
      rw [not_and, not_not] at hskipped
      exact hskipped hn
  constructor
  · intro ha _
    exact ha
  · intro ha
    exact ha hnd

theorem exists_retrievePvtdata_iff (txs : List (TxPvtdataInfo Config)) :
    (∃ r, retrievePvtdata sup sources txs = .ok r) ↔ ∀ tx ∈ txs, Usable sup tx := by
  have hcm : (∃ info, computeEligibility sup txs = .ok info) ↔ ∀ tx ∈ txs, Usable sup tx :=
    Except.exists_foldlM_iff fun info tx => exists_addTx_iff info tx
  rw [← hcm]
  constructor
  · rintro ⟨_, hr⟩
    obtain ⟨info, hin, -⟩ := of_bind hr
    exact ⟨info, hin⟩
  · rintro ⟨_, hin⟩
    exact ⟨_, bind_of_ok hin rfl⟩

theorem noPanic_retrievePvtdata (txs : List (TxPvtdataInfo Config)) :
    (retrievePvtdata sup sources txs).NoPanic := by
  apply NoPanic.bind
  · apply NoPanic.foldlM
    intro info _
    unfold RetrievalInfo.addTx
    split_ifs
    · exact noPanic_ok _
    apply NoPanic.foldlM
    intro _ _
    unfold RetrievalInfo.addCollection
    split
    · exact noPanic_error _
    · dsimp only
      split_ifs <;> exact noPanic_ok _
  · intro _ _
    exact noPanic_ok _

theorem noPanic_pvtDataStage (data : List Bytes) (filter : Option Bytes) :
    (pvtDataStage sup sources data filter).NoPanic := by
  apply NoPanic.bind
  · unfold getTxPvtdataInfoFromBlock
    split
    · exact noPanic_error _
    split_ifs
    · exact noPanic_error _
    apply NoPanic.bind
    · apply NoPanic.mapM
      intro tx _
      exact noPanic_txPvtdataInfo tx.2 tx.1
    · intro _ _
      exact noPanic_ok _
  · intro txs _
    exact noPanic_retrievePvtdata sources txs

theorem harmless_iff (tx : Bytes × Byte) :
    Harmless sup tx ↔
      ∃ r, txPvtdataInfo sup seqInBlock tx = .ok r ∧ ∀ info ∈ r, Usable sup info := by
  by_cases hp : ∃ txInfo, getTxInfoFromTransactionBytes sup.toTxCodec tx.1 = .ok (some txInfo)
  · obtain ⟨txInfo, hp⟩ := hp
    have hnd : ∀ cols : List (CollectionPvtdataInfo Config),
        (decide (tx.2 ≠ txValid) = false ∨ sup.storePvtdataOfInvalidTx = true) ↔
        (tx.2 = txValid ∨ sup.storePvtdataOfInvalidTx = true) := by
      intro _
      simp
    constructor
    · intro hhr
      have ha := hhr txInfo hp
      have hcl : ∃ cols, (writtenCollections txInfo.txRWSet).mapM
          (collectionPvtdataInfo sup txInfo.channelID) = .ok cols := by
        rw [Except.exists_mapM_iff]
        intro wr hwr
        obtain ⟨config, hc, -⟩ := ha wr hwr
        exact ⟨_, exists_collectionPvtdataInfo_iff.mpr ⟨config, hc, rfl⟩⟩
      obtain ⟨cols, hcl⟩ := hcl
      refine ⟨_, (txPvtdataInfo_of_parsed hp).mpr ⟨cols, hcl, rfl⟩, ?_⟩
      intro _ hin
      cases hin
      intro hs _ hl
      rw [hnd cols] at hs
      obtain ⟨wr, hwr, htr⟩ := (Except.of_mapM hcl).2 _ hl
      obtain ⟨_, hc, rfl⟩ := exists_collectionPvtdataInfo_iff.mp htr
      obtain ⟨_, ho, hpol⟩ := ha wr hwr
      rw [hc] at ho
      cases ho
      exact hpol hs
    · rintro ⟨_, hr, hb⟩ _ ho _ hwr
      rw [hp] at ho
      cases ho
      obtain ⟨cols, hcl, rfl⟩ := (txPvtdataInfo_of_parsed hp).mp hr
      obtain ⟨_, hl, htr⟩ := (Except.of_mapM hcl).1 _ hwr
      obtain ⟨config, hc, rfl⟩ := exists_collectionPvtdataInfo_iff.mp htr
      refine ⟨config, hc, ?_⟩
      intro hs
      exact hb _ rfl ((hnd cols).mpr hs) _ hl
  · rw [not_exists] at hp
    refine iff_of_true ?_ ⟨none, txPvtdataInfo_of_not_parsed hp, ?_⟩
    · intro txInfo ht
      exact absurd ht (hp txInfo)
    · intro _ hin
      cases hin

variable (support sup) in
/-- The invalid transactions count as the valid ones do. -/
theorem pvtDataStage_ok_iff (data : List Bytes)
    (txsFilter : Bytes) (hflags : txsFilter.length = data.length) :
    (pvtDataStage support sources data (some txsFilter)).NoPanic ∧
      ((∃ result, pvtDataStage support sources data (some txsFilter) = .ok result) ↔
        ∀ tx ∈ data.zip txsFilter, Harmless support tx) := by
  refine ⟨noPanic_pvtDataStage sources data (some txsFilter), ?_⟩
  have hst : (∃ result, pvtDataStage support sources data (some txsFilter) =
      .ok result) ↔ ∃ infos, (data.zip txsFilter).zipIdx.mapM
        (fun tx => txPvtdataInfo support tx.2 tx.1) = .ok infos ∧
          ∀ tx ∈ infos.reduceOption, Usable support tx := by
    unfold pvtDataStage getTxPvtdataInfoFromBlock
    dsimp only
    rw [if_neg (not_not.mpr hflags)]
    constructor
    · rintro ⟨result, hres⟩
      obtain ⟨_, htxs, hres⟩ := of_bind hres
      obtain ⟨infos, hin, hpu⟩ := of_bind htxs
      cases hpu
      exact ⟨infos, hin, (exists_retrievePvtdata_iff sources _).mp ⟨result, hres⟩⟩
    · rintro ⟨_, hin, husb⟩
      obtain ⟨result, hres⟩ := (exists_retrievePvtdata_iff sources _).mpr husb
      exact ⟨result, bind_of_ok (bind_of_ok hin rfl) hres⟩
  rw [hst]
  constructor
  · rintro ⟨_, hin, husb⟩ tx htx
    obtain ⟨i, hidx⟩ : ∃ i, (tx, i) ∈ (data.zip txsFilter).zipIdx := by
      obtain ⟨position, hpos, rfl⟩ := mem_iff_getElem.mp htx
      exact ⟨position, mk_mem_zipIdx_iff_getElem?.mpr (List.getElem?_eq_getElem hpos)⟩
    obtain ⟨result, hmem, hres⟩ := (Except.of_mapM hin).1 _ hidx
    rw [harmless_iff i tx]
    refine ⟨result, hres, ?_⟩
    intro info hio
    cases hio
    exact husb info (reduceOption_mem_iff.mpr hmem)
  · intro hhr
    have hall : ∀ entry ∈ (data.zip txsFilter).zipIdx,
        ∃ result, txPvtdataInfo support entry.2 entry.1 = .ok result := by
      rintro ⟨tx, i⟩ hent
      obtain ⟨result, hres, -⟩ := (harmless_iff i tx).mp (hhr tx (fst_mem_of_mem_zipIdx hent))
      exact ⟨result, hres⟩
    obtain ⟨infos, hin⟩ := Except.exists_mapM_iff.mpr hall
    refine ⟨infos, hin, ?_⟩
    intro info hio
    rw [reduceOption_mem_iff] at hio
    obtain ⟨⟨tx, i⟩, hent, hturn⟩ := (Except.of_mapM hin).2 _ hio
    obtain ⟨_, hres, husb⟩ := (harmless_iff i tx).mp (hhr tx (fst_mem_of_mem_zipIdx hent))
    rw [hturn] at hres
    cases hres
    exact husb info rfl

/-- The block in which the transactions that are flagged invalid are empty. -/
def withoutInvalid (data : List Bytes) (txsFilter : Bytes) : List Bytes :=
  zipWith (fun tx flag => if flag = txValid then tx else []) data txsFilter

theorem zip_withoutInvalid (data : List Bytes) (txsFilter : Bytes) :
    (withoutInvalid data txsFilter).zip txsFilter =
      (data.zip txsFilter).map fun tx => (if tx.2 = txValid then tx.1 else [], tx.2) := by
  induction data generalizing txsFilter with
  | nil => rfl
  | cons tx data ih =>
    cases txsFilter with
    | nil => rfl
    | cons flag txsFilter => simpa [withoutInvalid] using ih txsFilter

theorem harmless_empty (flag : Byte) : Harmless sup ([], flag) := by
  intro _ hparsed
  cases hparsed

variable (support sup) in
/-- An invalid transaction cannot stop the stage exactly when it is harmless:
the stage succeeds if it does without the contents of the invalid transactions
and each of these is harmless.  It never panics. -/
theorem invalidTx_stops_stage_iff (data : List Bytes)
    (txsFilter : Bytes) (hflags : txsFilter.length = data.length) :
    (pvtDataStage support sources data (some txsFilter)).NoPanic ∧
      ((∃ result, pvtDataStage support sources data (some txsFilter) = .ok result) ↔
        (∃ result, pvtDataStage support sources (withoutInvalid data txsFilter)
          (some txsFilter) = .ok result) ∧
        ∀ tx ∈ data.zip txsFilter, tx.2 ≠ txValid → Harmless support tx) := by
  obtain ⟨hnoPanic, hstage⟩ := pvtDataStage_ok_iff support sources data txsFilter hflags
  have hlength : txsFilter.length = (withoutInvalid data txsFilter).length := by
    simp [withoutInvalid, hflags]
  obtain ⟨-, hrest⟩ :=
    pvtDataStage_ok_iff support sources (withoutInvalid data txsFilter) txsFilter hlength
  refine ⟨hnoPanic, ?_⟩
  rw [hstage, hrest, zip_withoutInvalid, forall_mem_map]
  constructor
  · intro hharmless
    refine ⟨?_, fun tx htx _ => hharmless tx htx⟩
    intro tx htx
    split_ifs
    · exact hharmless tx htx
    · exact harmless_empty tx.2
  · rintro ⟨hvalid, hinvalid⟩ tx htx
    by_cases hflag : tx.2 = txValid
    · have hsame := hvalid tx htx
      rwa [if_pos hflag] at hsame
    · exact hinvalid tx htx hflag

def oneCollection : TxRwSet where
  nsRwSets :=
    [{ nameSpace := ascii "basic"
       kvRwSet := { reads := [], rangeQueriesInfo := [], writes := []
                    metadataWrites := [] }
       collHashedRwSets :=
         [{ collectionName := ascii "unknown"
            hashedRwSet :=
              { hashedReads := []
                hashedWrites := [{ keyHash := [1], isDelete := false
                                   valueHash := [1], isPurge := false }]
                metadataWrites := [] } }] }]

/-- A channel without collections, in which every transaction has that write
set. -/
def noCollections : Support Unit where
  unmarshalTransaction := fun _ => .ok [[]]
  unmarshalChaincodeActionPayload := fun _ => .ok ⟨some (some [])⟩
  unmarshalProposalResponsePayload := fun _ => .ok (some [])
  unmarshalChaincodeAction := fun _ => .ok []
  txRwSetFromProtoBytes := fun _ => .ok oneCollection
  collectionInfo := fun _ _ _ => none
  newSimpleCollection := fun _ => .error "Nil config passed to collection setup"
  mspID := ascii "Org1MSP"
  storePvtdataOfInvalidTx := true
  skipPullingInvalidTransactions := false
  hash := id

def noSources : Sources where
  prefetched := []
  stored := fun _ => []
  rounds := []

/-- An envelope with the header of an endorser transaction. -/
def endorserEnvelope : Bytes := [10, 6, 10, 4, 10, 2, 8, 3]

def withCollection : Support Unit :=
  { noCollections with
    collectionInfo := fun _ _ _ => some ()
    newSimpleCollection := fun _ => .ok ⟨[], true⟩ }

/-- A valid transaction and an invalid one, both of which write in it. -/
theorem invalidTx_passes_stage :
    (pvtDataStage withCollection noSources [endorserEnvelope, endorserEnvelope]
        (some [0, 10])).NoPanic ∧
      (∃ result, pvtDataStage withCollection noSources
        (withoutInvalid [endorserEnvelope, endorserEnvelope] [0, 10]) (some [0, 10]) = .ok result) ∧
      ∀ tx ∈ [endorserEnvelope, endorserEnvelope].zip [0, 10], tx.2 ≠ txValid →
        Harmless withCollection tx := by
  obtain ⟨hnoPanic, hstage⟩ := invalidTx_stops_stage_iff withCollection noSources
    [endorserEnvelope, endorserEnvelope] [0, 10] rfl
  exact ⟨hnoPanic, hstage.mp ⟨_, rfl⟩⟩

/-- The only transaction of the block is flagged with
`ENDORSEMENT_POLICY_FAILURE`, and the stage fails. -/
theorem invalidTx_stops_stage :
    (10 : Byte) ≠ txValid ∧
      pvtDataStage noCollections noSources [endorserEnvelope] (some [10]) =
        .error (.error "collection /basic/unknown could not be found") :=
  ⟨by decide, rfl⟩

end Coordinator
end FabricSequencer
