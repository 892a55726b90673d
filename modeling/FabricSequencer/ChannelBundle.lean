import FabricSequencer.ConfigUpdateAuthorization

/-!
# Channel configuration bundles

A bundle is what a node computes from the configuration of a channel.  Of the
orderer section everything is read from the values of the group `Orderer`.
The decoders of the values, the sections of organizations, of applications and
of consortiums, the MSP manager and the policy manager are parameters.
-/

namespace FabricSequencer.Channelconfig

open SortedMap List Outcome

def rootGroupKey : GoString := ascii "Channel"
def ordererGroupKey : GoString := ascii "Orderer"
def applicationGroupKey : GoString := ascii "Application"
def consortiumsGroupKey : GoString := ascii "Consortiums"

def consensusTypeKey : GoString := ascii "ConsensusType"
def batchSizeKey : GoString := ascii "BatchSize"
def batchTimeoutKey : GoString := ascii "BatchTimeout"
def kafkaBrokersKey : GoString := ascii "KafkaBrokers"
def channelRestrictionsKey : GoString := ascii "ChannelRestrictions"
def orderersKey : GoString := ascii "Orderers"
def capabilitiesKey : GoString := ascii "Capabilities"
def hashingAlgorithmKey : GoString := ascii "HashingAlgorithm"
def blockDataHashingStructureKey : GoString := ascii "BlockDataHashingStructure"
def ordererAddressesKey : GoString := ascii "OrdererAddresses"
def consortiumKey : GoString := ascii "Consortium"

/-- `ConsensusType_State` as read from the wire. -/
inductive ConsensusTypeState where
  | normal
  | maintenance
  | other (code : ℤ)
deriving DecidableEq

def ConsensusTypeState.text : ConsensusTypeState → String
  | .normal => "STATE_NORMAL"
  | .maintenance => "STATE_MAINTENANCE"
  | .other code => toString code

structure ConsensusType where
  type : GoString
  metadata : Bytes
  state : ConsensusTypeState

structure BatchSize where
  maxMessageCount : ℕ
  absoluteMaxBytes : ℕ
  preferredMaxBytes : ℕ

structure Consenter where
  host : GoString
  port : ℕ
  clientTlsCert : Bytes
  serverTlsCert : Bytes

/-- `OrdererProtos`; a missing value leaves the zero message.  Of the
capabilities only the names matter. -/
structure OrdererProtos where
  consensusType : ConsensusType := ⟨[], [], .normal⟩
  batchSize : BatchSize := ⟨0, 0, 0⟩
  batchTimeout : GoString := []
  orderers : List Consenter := []
  capabilities : List GoString := []

structure ChannelProtos where
  hashingAlgorithm : GoString := []
  blockDataHashingStructure : ℕ := 0
  ordererAddresses : List GoString := []
  capabilities : List GoString := []

structure ChannelCodec where
  unmarshalConsensusType : Bytes → Except String ConsensusType
  unmarshalBatchSize : Bytes → Except String BatchSize
  unmarshalBatchTimeout : Bytes → Except String GoString
  unmarshalKafkaBrokers : Bytes → Except String Unit
  unmarshalChannelRestrictions : Bytes → Except String Unit
  unmarshalOrderers : Bytes → Except String (List Consenter)
  unmarshalCapabilities : Bytes → Except String (List GoString)
  unmarshalHashingAlgorithm : Bytes → Except String GoString
  unmarshalBlockDataHashingStructure : Bytes → Except String ℕ
  unmarshalOrdererAddresses : Bytes → Except String (List GoString)
  unmarshalConsortium : Bytes → Except String Unit
  parseDuration : GoString → Except String ℤ
  /-- `NewOrdererOrgConfig`; the result has the endpoints. -/
  newOrdererOrgConfig : GoString → ConfigGroup → List GoString → Outcome (List GoString)
  newApplicationConfig : ConfigGroup → List GoString → Outcome Unit
  newConsortiumsConfig : ConfigGroup → List GoString → Outcome Unit
  createMSPManager : ConfigGroup → Outcome Unit
  newManagerImpl : ConfigGroup → Outcome Policies.Manager

section

variable (capabilities : List GoString)

def ordererConsensusTypeMigration : Bool :=
  capabilities.contains (ascii "V1_4_2") || capabilities.contains (ascii "V2_0")

def orgSpecificOrdererEndpoints : Bool :=
  capabilities.contains (ascii "V1_4_2") || capabilities.contains (ascii "V1_4_3") ||
    capabilities.contains (ascii "V2_0") || capabilities.contains (ascii "V3_0")

def consensusTypeBFT : Bool := capabilities.contains (ascii "V3_0")

end

variable (codec : ChannelCodec)

/-- `StandardValues.Deserialize` for `OrdererProtos`. -/
def OrdererProtos.deserialize (protos : OrdererProtos)
    (key : GoString) (value : Bytes) : Outcome OrdererProtos :=
  if key = consensusTypeKey then do
    let message ← Outcome.returned (codec.unmarshalConsensusType value)
    pure { protos with consensusType := message }
  else if key = batchSizeKey then do
    let message ← Outcome.returned (codec.unmarshalBatchSize value)
    pure { protos with batchSize := message }
  else if key = batchTimeoutKey then do
    let message ← Outcome.returned (codec.unmarshalBatchTimeout value)
    pure { protos with batchTimeout := message }
  else if key = kafkaBrokersKey then do
    Outcome.returned (codec.unmarshalKafkaBrokers value)
    pure protos
  else if key = channelRestrictionsKey then do
    Outcome.returned (codec.unmarshalChannelRestrictions value)
    pure protos
  else if key = orderersKey then do
    let message ← Outcome.returned (codec.unmarshalOrderers value)
    pure { protos with orderers := message }
  else if key = capabilitiesKey then do
    let message ← Outcome.returned (codec.unmarshalCapabilities value)
    pure { protos with capabilities := message }
  else .error (.error ("Unexpected key " ++ printed key))

/-- `StandardValues.Deserialize` for `ChannelProtos`. -/
def ChannelProtos.deserialize (protos : ChannelProtos)
    (key : GoString) (value : Bytes) : Outcome ChannelProtos :=
  if key = hashingAlgorithmKey then do
    let message ← Outcome.returned (codec.unmarshalHashingAlgorithm value)
    pure { protos with hashingAlgorithm := message }
  else if key = blockDataHashingStructureKey then do
    let message ← Outcome.returned (codec.unmarshalBlockDataHashingStructure value)
    pure { protos with blockDataHashingStructure := message }
  else if key = ordererAddressesKey then do
    let message ← Outcome.returned (codec.unmarshalOrdererAddresses value)
    pure { protos with ordererAddresses := message }
  else if key = orderersKey then do
    let _ ← Outcome.returned (codec.unmarshalOrderers value)
    pure protos
  else if key = consortiumKey then do
    Outcome.returned (codec.unmarshalConsortium value)
    pure protos
  else if key = capabilitiesKey then do
    let message ← Outcome.returned (codec.unmarshalCapabilities value)
    pure { protos with capabilities := message }
  else .error (.error ("Unexpected key " ++ printed key))

def deserializeProtoValuesFromGroup {P : Type} (deserialize : P → GoString → Bytes → Outcome P)
    (group : ConfigGroup) (protos : P) : Outcome P :=
  group.values.entries.foldlM (fun protos entry => deserialize protos entry.1 entry.2.value) protos

structure OrdererConfig where
  protos : OrdererProtos
  orgs : SortedMap GoString (List GoString)

namespace OrdererConfig

def consensusType (oc : OrdererConfig) : GoString := oc.protos.consensusType.type

variable (oc : OrdererConfig)

def consensusMetadata : Bytes := oc.protos.consensusType.metadata

def consensusState : ConsensusTypeState := oc.protos.consensusType.state

def consenters : List Consenter := oc.protos.orderers

def consensusTypeMigration : Bool :=
  ordererConsensusTypeMigration oc.protos.capabilities

end OrdererConfig

def validateBatchSize (batchSize : BatchSize) : Outcome Unit :=
  if batchSize.maxMessageCount = 0 then
    .error (.error ("Attempted to set the batch size max message count to an " ++
      "invalid value: 0"))
  else if batchSize.absoluteMaxBytes = 0 then
    .error (.error ("Attempted to set the batch size absolute max bytes to an " ++
      "invalid value: 0"))
  else if batchSize.preferredMaxBytes = 0 then
    .error (.error ("Attempted to set the batch size preferred max bytes to an " ++
      "invalid value: 0"))
  else if batchSize.preferredMaxBytes > batchSize.absoluteMaxBytes then
    .error (.error ("Attempted to set the batch size preferred max bytes (" ++
      toString batchSize.preferredMaxBytes ++
      ") greater than the absolute max bytes (" ++
      toString batchSize.absoluteMaxBytes ++ ")."))
  else .ok ()

def validateBatchTimeout (timeout : GoString) : Outcome Unit :=
  match codec.parseDuration timeout with
  | .error text =>
    .error (.error ("Attempted to set the batch timeout to a invalid value: " ++ text))
  | .ok duration =>
    if duration ≤ 0 then
      .error (.error ("Attempted to set the batch timeout to a non-positive " ++
        "value: " ++ toString duration))
    else .ok ()

def validateAllOrgsHaveEndpoints (orgs : SortedMap GoString (List GoString)) : Outcome Unit :=
  let orgsMissingEndpoints := (orgs.entries.filter fun entry => entry.2.length == 0).map Prod.fst
  if orgsMissingEndpoints.length > 0 then
    .error (.error ("some orderer organizations endpoints are empty: " ++
      toString (orgsMissingEndpoints.map printed)))
  else .ok ()

def newOrdererConfig (ordererGroup : ConfigGroup)
    (channelCapabilities : List GoString) : Outcome OrdererConfig := do
  let protos ← (deserializeProtoValuesFromGroup
    (OrdererProtos.deserialize codec) ordererGroup {}).withMessage "failed to deserialize values"
  validateBatchSize protos.batchSize
  validateBatchTimeout codec protos.batchTimeout
  let orgs ← ordererGroup.groups.traverse fun orgName orgGroup =>
    codec.newOrdererOrgConfig orgName orgGroup channelCapabilities
  (if consensusTypeBFT channelCapabilities then
    validateAllOrgsHaveEndpoints orgs else pure ())
  pure { protos := protos, orgs := orgs }

structure ChannelConfig where
  ordererConfig : Option OrdererConfig

def validateChannel (protos : ChannelProtos) : Outcome Unit :=
  if protos.hashingAlgorithm ≠ ascii "SHA256" ∧ protos.hashingAlgorithm ≠ ascii "SHA3_256" then
    .error (.error ("Unknown hashing algorithm type: " ++ printed protos.hashingAlgorithm))
  else if protos.blockDataHashingStructure ≠ 2 ^ 32 - 1 then
    .error (.error ("BlockDataHashStructure width only supported at MaxUint32 " ++
      "in this version"))
  else if ¬ orgSpecificOrdererEndpoints protos.capabilities ∧
      protos.ordererAddresses.length = 0 then
    .error (.error "Must set some OrdererAddresses")
  else if consensusTypeBFT protos.capabilities ∧ protos.ordererAddresses.length > 0 then
    .error (.error ("global OrdererAddresses are not allowed with V3_0 " ++
      "capability, use org specific addresses only"))
  else .ok ()

def addChannelGroup (capabilities : List GoString)
    (cc : ChannelConfig) (entry : GoString × ConfigGroup) :
    Outcome ChannelConfig :=
  let message := "could not create channel " ++ printed entry.1 ++ " sub-group config"
  if entry.1 = applicationGroupKey then do
    (codec.newApplicationConfig entry.2 capabilities).withMessage message
    pure cc
  else if entry.1 = ordererGroupKey then do
    let ordererConfig ← (newOrdererConfig codec entry.2 capabilities).withMessage message
    pure { cc with ordererConfig := some ordererConfig }
  else if entry.1 = consortiumsGroupKey then do
    (codec.newConsortiumsConfig entry.2 capabilities).withMessage message
    pure cc
  else .error (.error "Disallowed channel group")

def newChannelConfig (channelGroup : ConfigGroup) : Outcome ChannelConfig := do
  let protos ← (deserializeProtoValuesFromGroup
    (ChannelProtos.deserialize codec) channelGroup {}).withMessage "failed to deserialize values"
  validateChannel protos
  let cc ← channelGroup.groups.entries.foldlM
    (addChannelGroup codec protos.capabilities) { ordererConfig := none }
  codec.createMSPManager channelGroup
  pure cc

structure Bundle where
  policyManager : Policies.Manager
  channelConfig : ChannelConfig
  configtxManager : ValidatorImpl

def Bundle.ordererConfig (b : Bundle) : Option OrdererConfig := b.channelConfig.ordererConfig

def preValidateGroup (channelGroup : ConfigGroup) : Outcome Unit :=
  match channelGroup.groups.get ordererGroupKey with
  | none => .ok ()
  | some og =>
    if (og.values.get capabilitiesKey).isSome then .ok ()
    else if (channelGroup.values.get capabilitiesKey).isSome then
      .error (.error "cannot enable channel capabilities without orderer support first")
    else
      match channelGroup.groups.get applicationGroupKey with
      | none => .ok ()
      | some ag =>
        if (ag.values.get capabilitiesKey).isSome then
          .error (.error ("cannot enable application capabilities without " ++
            "orderer support first"))
        else .ok ()

def newBundle (channelID : GoString) (config : Option Config) : Outcome Bundle :=
  match config with
  | none => .error (.error "channelconfig Config cannot be nil")
  | some config =>
    match config.channelGroup with
    | none => .error (.error "config must contain a channel group")
    | some channelGroup => do
        preValidateGroup channelGroup
        let channelConfig ← (newChannelConfig codec channelGroup).withMessage
          "initializing channelconfig failed"
        let policyManager ← (codec.newManagerImpl channelGroup).withMessage
          "initializing policymanager failed"
        let configtxManager ← (newValidatorImpl channelID (some config)
          rootGroupKey policyManager).withMessage "initializing configtx manager failed"
        pure { policyManager := policyManager
               channelConfig := channelConfig
               configtxManager := configtxManager }

/-! ## What is read from the orderer section -/

section Field

variable {P F : Type} {deserialize : P → GoString → Bytes → Outcome P} (field : P → F)
  {key : GoString} {unmarshal : Bytes → Except String F}
  (hoth : ∀ protos next other v, other ≠ key →
    deserialize protos other v = .ok next → field next = field protos)
  (hkey : ∀ protos next v, deserialize protos key v = .ok next → unmarshal v = .ok (field next))

include hoth hkey

theorem foldlM_deserialize_field {es : List (GoString × ConfigValue)}
    (hsr : es.Pairwise fun a b => a.1 < b.1) {protos r : P}
    (hfo : es.foldlM (fun protos e => deserialize protos e.1 e.2.value) protos = .ok r) :
    ((∀ v, (key, v) ∉ es) ∧ field r = field protos) ∨
      ∃ v, (key, v) ∈ es ∧ unmarshal v.value = .ok (field r) := by
  induction es generalizing protos with
  | nil =>
    cases hfo
    exact .inl ⟨fun _ => not_mem_nil, rfl⟩
  | cons e _ ih =>
    rw [foldlM_cons, Except.bind_eq_ok_iff] at hfo
    obtain ⟨next, he, hrs⟩ := hfo
    rw [pairwise_cons] at hsr
    rcases ih hsr.2 hrs with ⟨hb, hfl⟩ | ⟨v, hm, hval⟩
    · by_cases heq : e.1 = key
      · subst heq
        rw [hfl]
        exact .inr ⟨e.2, mem_cons_self, hkey protos next e.2.value he⟩
      refine .inl ⟨?_, ?_⟩
      · intro v hm
        rcases mem_cons.mp hm with hhead | hlat
        · exact heq (congrArg Prod.fst hhead).symm
        · exact hb v hlat
      · rw [hfl]
        exact hoth protos next e.1 e.2.value heq he
    · exact .inr ⟨v, mem_cons_of_mem _ hm, hval⟩

theorem deserializeProtoValuesFromGroup_field {group : ConfigGroup} {protos r : P}
    (hds : deserializeProtoValuesFromGroup deserialize group protos = .ok r) :
    (group.values.get key = none ∧ field r = field protos) ∨
      ∃ v, group.values.get key = some v ∧ unmarshal v.value = .ok (field r) := by
  simp only [get_eq_none_iff, get_eq_some_iff]
  exact foldlM_deserialize_field field hoth hkey group.values.sorted hds

end Field

open OrdererProtos

section Orderer

variable {codec : ChannelCodec} {og : ConfigGroup}
  {channelCapabilities : List GoString} {oc : OrdererConfig}

variable (hnew : newOrdererConfig codec og channelCapabilities = .ok oc)

include hnew

theorem protos_of_newOrdererConfig :
    deserializeProtoValuesFromGroup (deserialize codec) og {} = .ok oc.protos := by
  unfold newOrdererConfig at hnew
  obtain ⟨_, hp, hrs⟩ := of_bind hnew
  obtain ⟨_, -, hrs⟩ := of_bind hrs
  obtain ⟨_, -, hrs⟩ := of_bind hrs
  obtain ⟨_, -, hrs⟩ := of_bind hrs
  obtain ⟨_, -, hpu⟩ := of_bind hrs
  cases hpu
  exact withMessage_eq_ok_iff.mp hp

theorem consensusType_of_newOrdererConfig :
    (og.values.get consensusTypeKey = none ∧ oc.protos.consensusType = ⟨[], [], .normal⟩) ∨
      ∃ v, og.values.get consensusTypeKey = some v ∧
        codec.unmarshalConsensusType v.value = .ok oc.protos.consensusType := by
  apply deserializeProtoValuesFromGroup_field consensusType _ _ (protos_of_newOrdererConfig hnew)
  · intro _ _ _ _ hne hok
    unfold deserialize at hok
    rw [if_neg hne] at hok
    split_ifs at hok
    all_goals
      obtain ⟨_, -, hpu⟩ := of_bind hok
      cases hpu
      rfl
  · intro _ _ _ hok
    unfold deserialize at hok
    rw [if_pos rfl] at hok
    obtain ⟨_, hm, hpu⟩ := of_bind hok
    cases hpu
    exact returned_eq_ok_iff.mp hm

theorem capabilities_of_newOrdererConfig :
    (og.values.get capabilitiesKey = none ∧ oc.protos.capabilities = []) ∨
      ∃ v, og.values.get capabilitiesKey = some v ∧
        codec.unmarshalCapabilities v.value = .ok oc.protos.capabilities := by
  apply deserializeProtoValuesFromGroup_field capabilities _ _ (protos_of_newOrdererConfig hnew)
  · intro _ _ _ _ _ hok
    unfold deserialize at hok
    split_ifs at hok
    all_goals
      obtain ⟨_, -, hpu⟩ := of_bind hok
      cases hpu
      rfl
  intro _ _ _ hok
  have hky : capabilitiesKey ≠ consensusTypeKey ∧ capabilitiesKey ≠ batchSizeKey ∧
      capabilitiesKey ≠ batchTimeoutKey ∧ capabilitiesKey ≠ kafkaBrokersKey ∧
      capabilitiesKey ≠ channelRestrictionsKey ∧ capabilitiesKey ≠ orderersKey := by decide
  unfold deserialize at hok
  obtain ⟨hcn, hsz, ht, hkf, hrs, hor⟩ := hky
  rw [if_neg hcn, if_neg hsz, if_neg ht, if_neg hkf, if_neg hrs, if_neg hor, if_pos rfl] at hok
  obtain ⟨_, hm, hpu⟩ := of_bind hok
  cases hpu
  exact returned_eq_ok_iff.mp hm

end Orderer

variable {codec : ChannelCodec}

theorem ordererConfig_of_foldlM {capabilities : List GoString} {es : List (GoString × ConfigGroup)}
    {cc r : ChannelConfig} (hfl : es.foldlM (addChannelGroup codec capabilities) cc = .ok r)
    {oc : OrdererConfig} (ho : r.ordererConfig = some oc) :
    cc.ordererConfig = some oc ∨
      ∃ og, (ordererGroupKey, og) ∈ es ∧ newOrdererConfig codec og capabilities = .ok oc := by
  induction es generalizing cc with
  | nil =>
    cases hfl
    exact .inl ho
  | cons e _ ih =>
    rw [foldlM_cons, Except.bind_eq_ok_iff] at hfl
    obtain ⟨_, he, hrs⟩ := hfl
    rcases ih hrs with hnx | ⟨og, hm, hnew⟩
    · unfold addChannelGroup at he
      dsimp only at he
      split_ifs at he with happlication hkey hconsortiums
      · obtain ⟨_, -, hpu⟩ := of_bind he
        cases hpu
        exact .inl hnx
      · obtain ⟨_, hg, hpu⟩ := of_bind he
        cases hpu
        cases hnx
        refine .inr ⟨e.2, ?_, withMessage_eq_ok_iff.mp hg⟩
        rw [← hkey]
        exact mem_cons_self
      · obtain ⟨_, -, hpu⟩ := of_bind he
        cases hpu
        exact .inl hnx
    · exact .inr ⟨og, mem_cons_of_mem _ hm, hnew⟩

theorem ordererConfig_of_newChannelConfig {cg : ConfigGroup} {cc : ChannelConfig}
    (hnew : newChannelConfig codec cg = .ok cc) {oc : OrdererConfig}
    (ho : cc.ordererConfig = some oc) :
    ∃ og capabilities,
      cg.groups.get ordererGroupKey = some og ∧
        newOrdererConfig codec og capabilities = .ok oc := by
  unfold newChannelConfig at hnew
  obtain ⟨protos, -, hrs⟩ := of_bind hnew
  obtain ⟨_, -, hrs⟩ := of_bind hrs
  obtain ⟨_, hfl, hrs⟩ := of_bind hrs
  obtain ⟨_, -, hpu⟩ := of_bind hrs
  cases hpu
  rcases ordererConfig_of_foldlM hfl ho with hno | ⟨og, hm, hor⟩
  · cases hno
  · exact ⟨og, protos.capabilities, get_eq_some_iff.mpr hm, hor⟩

theorem newValidatorImpl_eq_ok {channelID nameSpace : GoString}
    {config : Config} {pm : Policies.Manager} {vi : ValidatorImpl}
    (hnew : newValidatorImpl channelID (some config) nameSpace pm = .ok vi) :
    vi.configProto = config ∧ vi.nameSpace = nameSpace ∧ vi.sequence = config.sequence := by
  unfold newValidatorImpl at hnew
  dsimp only at hnew
  split at hnew
  · cases hnew
  obtain ⟨_, -, hrs⟩ := of_bind hnew
  split at hrs
  · rw [withMessage_eq_ok_iff] at hrs
    cases hrs
  · cases hrs
    exact ⟨rfl, rfl, rfl⟩

theorem newBundle_eq_ok {channelID : GoString} {config : Option Config} {bl : Bundle}
    (hnew : newBundle codec channelID config = .ok bl) :
    ∃ held cg, config = some held ∧ held.channelGroup = some cg ∧
      newChannelConfig codec cg = .ok bl.channelConfig ∧
      bl.configtxManager.configProto = held ∧
      bl.configtxManager.nameSpace = rootGroupKey ∧
      bl.configtxManager.sequence = held.sequence := by
  cases config with
  | none => cases hnew
  | some held =>
    cases hg : held.channelGroup with
    | none => simp [newBundle, hg] at hnew
    | some cg =>
      simp only [newBundle, hg] at hnew
      obtain ⟨_, -, hrs⟩ := of_bind hnew
      obtain ⟨_, hc, hrs⟩ := of_bind hrs
      obtain ⟨_, -, hrs⟩ := of_bind hrs
      obtain ⟨_, hvl, hpu⟩ := of_bind hrs
      cases hpu
      rw [withMessage_eq_ok_iff] at hc hvl
      obtain ⟨hpr, hnm, hs⟩ := newValidatorImpl_eq_ok hvl
      exact ⟨held, cg, rfl, hg, hc, hpr, hnm, hs⟩

end FabricSequencer.Channelconfig
