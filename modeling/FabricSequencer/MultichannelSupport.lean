import FabricSequencer.NopaxosChain

/-!
# Message processing and config blocks of a channel

The support the main loop runs on: `StandardChannel` checks messages against
the configuration in force, `ChainSupport.ProposeConfigUpdate` computes a new
configuration from it, and `BlockWriter.WriteConfigBlock` applies one.

What a configuration bundle offers to these functions is a parameter: the
filters, the config transaction validator and the construction of a bundle.  So
are the protobuf messages inside an envelope.  The nopaxos chain is no `MetadataValidator`, so
`ValidateConsensusMetadata` is the one that accepts everything.
-/

namespace FabricSequencer
namespace Multichannel

open BlockCutter NopaxosChain

/-- `common.HeaderType` as read from the wire, where any number can stand. -/
inductive HeaderType where
  | message
  | config
  | configUpdate
  | endorserTransaction
  | ordererTransaction
  | deliverSeekInfo
  | chaincodePackage
  | other (code : ℤ)
deriving DecidableEq

def HeaderType.text : HeaderType → String
  | .message => "MESSAGE"
  | .config => "CONFIG"
  | .configUpdate => "CONFIG_UPDATE"
  | .endorserTransaction => "ENDORSER_TRANSACTION"
  | .ordererTransaction => "ORDERER_TRANSACTION"
  | .deliverSeekInfo => "DELIVER_SEEK_INFO"
  | .chaincodePackage => "CHAINCODE_PACKAGE"
  | .other code => toString code

def HeaderType.code : HeaderType → ℤ
  | .message => 0
  | .config => 1
  | .configUpdate => 2
  | .endorserTransaction => 3
  | .ordererTransaction => 4
  | .deliverSeekInfo => 5
  | .chaincodePackage => 6
  | .other code => code

structure ChannelHeader where
  type : HeaderType
  channelId : String

/-- `common.Header`: a field that is absent on the wire is nil. -/
structure Header where
  channelHeader : Option Bytes

structure Payload where
  header : Option Header
  data : Bytes

inductive ConsensusState where
  | normal
  | maintenance
deriving DecidableEq

structure OrdererConfig where
  batchSize : BatchSize
  consensusTypeMigration : Bool
  consensusState : ConsensusState

structure ConfigEnvelope (Config : Type) where
  config : Option Config
  lastUpdate : Option Envelope

structure Codec (Config : Type) where
  unmarshalPayload : Bytes → Except String Payload
  unmarshalChannelHeader : Bytes → Except String ChannelHeader
  unmarshalConfigEnvelope : Bytes → Except String (ConfigEnvelope Config)
  createSignedEnvelope : HeaderType → String → ConfigEnvelope Config → Except String Envelope

/-- `channelconfig.Resources` of the channel and what is built from them. -/
structure Resources (Bundle Config : Type) where
  channelID : String
  sequence : Bundle → ℕ
  ordererConfig : Bundle → Option OrdererConfig
  ordererCapabilities : Bundle → Except String Unit
  channelCapabilities : Bundle → Except String Unit
  filters : Bundle → List (Envelope → Except String Unit)
  inspect : OrdererConfig → ConfigEnvelope Config → Except String Unit
  proposeConfigUpdate : Bundle → Envelope → Except String (ConfigEnvelope Config)
  validate : Bundle → ConfigEnvelope Config → Except String Unit
  createBundle : String → Option Config → Except String Bundle
  validateNew : Bundle → Bundle → Except String Unit

variable {Bundle Config : Type}

def applyRules : List (Envelope → Except String Unit) → Envelope → Except String Unit
  | [], _ => .ok ()
  | rule :: rules, message =>
    match rule message with
    | .error text => .error text
    | .ok () => applyRules rules message

variable (R : Resources Bundle Config)

def processNormalMsg (bundle : Bundle) (env : Envelope) : Outcome ℕ :=
  match R.ordererConfig bundle with
  | none => .error (.panic "Missing orderer config")
  | some oc =>
    if oc.consensusTypeMigration ∧ oc.consensusState ≠ .normal then
      .error (.error "normal transactions are rejected: maintenance mode")
    else
      match applyRules (R.filters bundle) env with
      | .error text => .error (.error text)
      | .ok () => .ok (R.sequence bundle)

variable (C : Codec Config)

def unmarshalEnvelopeOfType (envelope : Envelope) : Outcome (ConfigEnvelope Config) := do
  let payload ← Outcome.returned (C.unmarshalPayload envelope.payload)
  match payload.header with
  | none => .error (.error "envelope must have a Header")
  | some header =>
    let chdr ← Outcome.returned (C.unmarshalChannelHeader (header.channelHeader.getD []))
    if chdr.type ≠ .config then
      .error (.error ("invalid type " ++ chdr.type.text ++ ", expected CONFIG"))
    else
      (Outcome.returned (C.unmarshalConfigEnvelope payload.data)).withMessage
        "error unmarshalling message for type CONFIG"

def maintenanceFilter (bundle : Bundle) (message : Envelope) : Outcome Unit :=
  match R.ordererConfig bundle with
  | none => .error (.panic "Programming error: orderer config not found")
  | some ordererConf => do
      let configEnvelope ←
        (unmarshalEnvelopeOfType C message).withMessage "envelope unmarshalling failed"
      (Outcome.returned (R.inspect ordererConf configEnvelope)).withMessage
        "config transaction inspection failed"

def checkResources (bundle : Bundle) : Except String Unit :=
  match R.ordererConfig bundle with
  | none => .error "config does not contain orderer config"
  | some _ =>
    match R.ordererCapabilities bundle with
    | .error text =>
      .error ("config requires unsupported orderer capabilities: " ++ text ++ ": " ++ text)
    | .ok () =>
      match R.channelCapabilities bundle with
      | .error text =>
        .error ("config requires unsupported channel capabilities: " ++ text ++ ": " ++ text)
      | .ok () => .ok ()

def proposeConfigUpdate (R : Resources Bundle Config) (bundle : Bundle)
    (configtx : Envelope) : Outcome (ConfigEnvelope Config) := do
  let env ← Outcome.returned (R.proposeConfigUpdate bundle configtx)
  let next ← Outcome.returned (R.createBundle R.channelID env.config)
  (Outcome.returned (checkResources R next)).withMessage "config update is not compatible"
  Outcome.returned (R.validateNew bundle next)
  match R.ordererConfig bundle, R.ordererConfig next with
  | none, _ => .error (.panic "old config is missing orderer group")
  | some _, none => .error (.panic "new config is missing orderer group")
  | some _, some _ => .ok env

def processConfigUpdateMsg (bundle : Bundle) (env : Envelope) : Outcome (Envelope × ℕ) := do
  let seq := R.sequence bundle
  (Outcome.returned (applyRules (R.filters bundle) env)).withMessage
    "config update for existing channel did not pass initial checks"
  let configEnvelope ← (proposeConfigUpdate R bundle env).withMessage
    ("error applying config update to existing channel '" ++ R.channelID ++ "'")
  let config ← Outcome.returned (C.createSignedEnvelope .config R.channelID configEnvelope)
  (Outcome.returned (applyRules (R.filters bundle) config)).withMessage
    "config update for existing channel did not pass final checks"
  (maintenanceFilter R C bundle config).withMessage
    "config update for existing channel did not pass maintenance checks"
  pure (config, seq)

def processConfigMsg (bundle : Bundle) (env : Envelope) : Outcome (Envelope × ℕ) := do
  let configEnvelope ← unmarshalEnvelopeOfType C env
  match configEnvelope.lastUpdate with
  | none => .error (.panic "nil pointer dereference")
  | some update => processConfigUpdateMsg R C bundle update

/-- The configuration in force, those that were in force before it, and the
blocks of the ledger. -/
structure ChainSupport (Bundle : Type) where
  bundle : Bundle
  earlier : List Bundle
  blocks : List (List Envelope)

def ChainSupport.writeBlock (support : ChainSupport Bundle)
    (batch : List Envelope) : ChainSupport Bundle :=
  { support with blocks := support.blocks ++ [batch] }

/-- The case of `WriteConfigBlock` for a transaction of type CONFIG: the bundle
that is put in force. -/
def applyConfig (bundle : Bundle) (channelId : String) (data : Bytes) : Outcome Bundle := do
  let configEnvelope ←
    (Outcome.returned (C.unmarshalConfigEnvelope data)).orPanic
      ("Told to write a config block with new channel, " ++
        "but did not have config envelope encoded")
  (Outcome.returned (R.validate bundle configEnvelope)).orPanic
    "Told to write a config block with new config, but could not apply it"
  let next ←
    (Outcome.returned (R.createBundle channelId configEnvelope.config)).orPanic
      ("Told to write a config block with a new config, " ++ "but could not convert it to a bundle")
  match R.ordererConfig next with
  | none => .error (.panic ("[channel: " ++ R.channelID ++ "] OrdererConfig missing from bundle"))
  | some _ =>
    match R.ordererConfig bundle with
    | none => .error (.panic ("[channel " ++ R.channelID ++ "] has no orderer configuration"))
    | some _ => do
        (Outcome.returned (checkResources R next)).orPanic ("[channel " ++ R.channelID ++ "]")
        pure next

def configBlockBundle (bundle : Bundle) (messages : List Envelope) : Outcome Bundle := do
  match messages with
  | [] =>
    .error (.panic ("Told to write a config block, " ++
      "but could not get configtx: envelope index out of bounds"))
  | ctx :: _ =>
    let payload ←
      (Outcome.returned (C.unmarshalPayload ctx.payload)).orPanic
        "Told to write a config block, but configtx payload is invalid"
    match payload.header with
    | none =>
      .error (.panic ("Told to write a config block, " ++ "but configtx payload header is missing"))
    | some header =>
      let chdr ← (Outcome.returned (C.unmarshalChannelHeader
        (header.channelHeader.getD []))).orPanic
          "Told to write a config block with an invalid channel header"
      match chdr.type with
      | .ordererTransaction =>
        .error (.panic ("[channel: " ++ R.channelID ++ "] Told to write a config block of type " ++
          "HeaderType_ORDERER_TRANSACTION, " ++
          "but the system channel is no longer supported"))
      | .config => applyConfig R C bundle chdr.channelId payload.data
      | unknown =>
        .error (.panic ("Told to write a config block with " ++
          "unknown header type: " ++ toString unknown.code))

def ChainSupport.writeConfigBlock (support : ChainSupport Bundle)
    (messages : List Envelope) : Outcome (ChainSupport Bundle) := do
  let next ← configBlockBundle R C support.bundle messages
  pure { bundle := next, earlier := support.earlier ++ [support.bundle],
         blocks := support.blocks ++ [messages] }

def ordererBatchSize (bundle : Bundle) : Outcome BatchSize :=
  match R.ordererConfig bundle with
  | none =>
    .error (.panic ("Could not retrieve orderer config to query batch " ++
      "parameters, block cutting is not possible"))
  | some oc => .ok oc.batchSize

def consenterSupport : ConsenterSupport (ChainSupport Bundle) where
  sequence support := R.sequence support.bundle
  processNormalMsg support := processNormalMsg R support.bundle
  processConfigMsg support := processConfigMsg R C support.bundle
  batchSize support := ordererBatchSize R support.bundle
  writeBlock := ChainSupport.writeBlock
  writeConfigBlock := ChainSupport.writeConfigBlock R C

end Multichannel

end FabricSequencer
