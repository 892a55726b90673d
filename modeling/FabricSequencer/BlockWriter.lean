import FabricSequencer.ChannelBundle

/-!
# The block writer of a channel

A block writer creates blocks on top of the last one it was given and appends
them to the ledger of the channel.  `WriteBlock` returns before the block is
appended; a goroutine that holds the lock `committingBlock` appends it later.
`WriteConfigBlock` waits for that goroutine, puts the new configuration in
force and appends its block at once.  A process can stop at any time; a new one
reads its configuration and its block writer from the ledger.

Block numbers are natural numbers.  A metadata slot is the message in it, and
an empty slot has none.
-/

namespace FabricSequencer.Blockwriter

open Channelconfig

structure BlockHeader where
  number : ℕ
  previousHash : Bytes
  dataHash : Bytes
deriving DecidableEq

structure OrdererBlockMetadata where
  lastConfig : Option ℕ
  consenterMetadata : Bytes

/-- The message `cb.Metadata` in the slot SIGNATURES. -/
structure SignatureMetadata where
  value : Option OrdererBlockMetadata
  signature : Bytes

structure BlockMetadata where
  signatures : Option SignatureMetadata
  lastConfig : Option ℕ

structure Block where
  header : BlockHeader
  data : List Bytes
  metadata : Option BlockMetadata

/-- The functions the block writer is given: encodings, hashes, the signer and
the sections of a configuration. -/
structure WriterCodec where
  marshalEnvelope : Envelope → Except String Bytes
  unmarshalEnvelope : Bytes → Except String Envelope
  unmarshalPayload : Bytes → Except String Multichannel.Payload
  unmarshalChannelHeader : Bytes → Except String (Multichannel.HeaderType × GoString)
  unmarshalConfigEnvelope : Bytes → Except String (Multichannel.ConfigEnvelope Config)
  configCodec : ConfigCodec
  channelCodec : ChannelCodec
  checkResources : Bundle → Except String Unit
  sha256 : Bytes → Bytes
  blockHeaderBytes : BlockHeader → Bytes
  sign : OrdererBlockMetadata → BlockHeader → Except String Bytes

variable (codec : WriterCodec)

def blockHeaderHash (header : BlockHeader) : Bytes := codec.sha256 (codec.blockHeaderBytes header)

def computeBlockDataHash (data : List Bytes) : Bytes := codec.sha256 data.flatten

def getLastConfigIndexFromBlock (block : Block) : Outcome ℕ :=
  match block.metadata with
  | none => .error (.error "failed to retrieve metadata: no metadata in block")
  | some metadata =>
    match metadata.signatures.bind SignatureMetadata.value with
    | none => .ok (metadata.lastConfig.getD 0)
    | some obm =>
      match obm.lastConfig with
      | none => .error (.panic "invalid memory address or nil pointer dereference")
      | some index => .ok index

def extractEnvelope (block : Block) : Except String Envelope :=
  match block.data with
  | [] => .error "envelope index out of bounds"
  | marshaledEnvelope :: _ =>
    match codec.unmarshalEnvelope marshaledEnvelope with
    | .error text => .error ("block data does not carry an envelope at index 0: " ++ text)
    | .ok envelope => .ok envelope

def decodeHeader (noEnvelope noPayload noHeader noChannelHeader : String) (block : Block) :
    Outcome (Multichannel.HeaderType × GoString × Bytes) := do
  let ctx ← (Outcome.returned (extractEnvelope codec block)).orPanic noEnvelope
  let payload ← (Outcome.returned (codec.unmarshalPayload ctx.payload)).orPanic noPayload
  match payload.header with
  | none => .error (.panic noHeader)
  | some header =>
    let chdr ← (Outcome.returned (codec.unmarshalChannelHeader
      (header.channelHeader.getD []))).orPanic noChannelHeader
    pure (chdr.1, chdr.2, payload.data)

/-- `BlockWriter` with the configuration of its support.  While a goroutine of
`WriteBlock` holds the lock, `committing` has the metadata it was given. -/
structure BlockWriter where
  bundle : Bundle
  lastConfigBlockNum : ℕ
  lastConfigSeq : ℕ
  lastBlock : Block
  committing : Option Bytes

def BlockWriter.sequence (bw : BlockWriter) : ℕ := bw.bundle.configtxManager.sequence

def newBlockWriter (lastBlock : Block) (bundle : Bundle) : Outcome BlockWriter := do
  let lastConfigBlockNum ←
    (if lastBlock.header.number ≠ 0 then
      (getLastConfigIndexFromBlock lastBlock).orPanic
        "Error extracting last config block from block metadata"
    else pure 0)
  pure { bundle := bundle, lastConfigBlockNum := lastConfigBlockNum
         lastConfigSeq := bundle.configtxManager.sequence
         lastBlock := lastBlock, committing := none }

def createNextBlock (lastBlock : Block) (messages : List Envelope) : Outcome Block := do
  let data ← messages.mapM fun msg =>
    (Outcome.returned (codec.marshalEnvelope msg)).orPanic "Could not marshal envelope"
  pure { header := { number := lastBlock.header.number + 1
                     previousHash := blockHeaderHash codec lastBlock.header
                     dataHash := computeBlockDataHash codec data }
         data := data
         metadata := some { signatures := none, lastConfig := none } }

/-- A block of the ledger and whether it was written as a config block. -/
structure Appended where
  block : Block
  config : Bool

abbrev Ledger := List Appended

def append (ledger : Ledger) (block : Block) (config : Bool) : Except String Ledger :=
  if block.header.number ≠ ledger.length then
    .error ("block number should have been " ++ toString ledger.length ++
      " but was " ++ toString block.header.number)
  else
    match ledger.getLast? with
    | none => .ok [⟨block, config⟩]
    | some last =>
      if block.header.previousHash ≠ blockHeaderHash codec last.block.header then
        .error "unexpected Previous block hash"
      else .ok (ledger ++ [⟨block, config⟩])

variable (bw : BlockWriter)

/-- The fields of the block writer after `addLastConfig`; the block gets
`lastConfigBlockNum`. -/
def BlockWriter.addLastConfig : BlockWriter :=
  if bw.sequence > bw.lastConfigSeq then
    { bw with lastConfigBlockNum := bw.lastBlock.header.number
              lastConfigSeq := bw.sequence }
  else bw

def addBlockSignature (lastConfigBlockNum : ℕ) (consenterMetadata : Bytes)
    (header : BlockHeader) : Outcome SignatureMetadata := do
  let value : OrdererBlockMetadata :=
    { lastConfig := some lastConfigBlockNum
      consenterMetadata := consenterMetadata }
  let signature ← (Outcome.returned (codec.sign value header)).orPanic "Failed signing data"
  pure { value := some value, signature := signature }

def commitBlock (ledger : Ledger) (config : Bool)
    (encodedMetadataValue : Bytes) : Outcome (BlockWriter × Ledger) :=
  let next := bw.addLastConfig
  match bw.lastBlock.metadata with
  | none => .error (.panic "invalid memory address or nil pointer dereference")
  | some metadata => do
      let signatures ← (match metadata.signatures with
        | some present => pure present
        | none => addBlockSignature codec next.lastConfigBlockNum
            encodedMetadataValue bw.lastBlock.header)
      let block : Block :=
        { bw.lastBlock with
          metadata := some { signatures := some signatures
                             lastConfig := some next.lastConfigBlockNum } }
      let appended ← (Outcome.returned
        (append codec ledger block config)).orPanic "Could not append block"
      pure ({ next with lastBlock := block, committing := none }, appended)

/-- `WriteConfigBlock` up to the update of the bundle: the bundle that is put
in force and the metadata for the block. -/
def configBundle (bundle : Bundle) (block : Block)
    (encodedMetadataValue : Bytes) : Outcome (Bundle × Bytes) := do
  let (type, channelId, data) ← decodeHeader codec
    "Told to write a config block, but could not get configtx"
    "Told to write a config block, but configtx payload is invalid"
    "Told to write a config block, but configtx payload header is missing"
    "Told to write a config block with an invalid channel header" block
  match type with
  | .ordererTransaction =>
    .error (.panic ("Told to write a config block of type " ++
      "HeaderType_ORDERER_TRANSACTION, but the system channel is no " ++
      "longer supported"))
  | .config => do
      let configEnvelope ← (Outcome.returned
        (codec.unmarshalConfigEnvelope data)).orPanic
          ("Told to write a config block with new channel, but did not " ++
            "have config envelope encoded")
      (bundle.configtxManager.validate codec.configCodec
        configEnvelope).orPanic
          ("Told to write a config block with new config, but could not " ++ "apply it")
      let next ← (newBundle codec.channelCodec channelId
        configEnvelope.config).orPanic
          ("Told to write a config block with a new config, but could not " ++
            "convert it to a bundle")
      match next.ordererConfig, bundle.ordererConfig with
      | none, _ => .error (.panic "OrdererConfig missing from bundle")
      | _, none => .error (.panic "no orderer configuration")
      | some oc, some current => do
          (Outcome.returned (codec.checkResources next)).orPanic "cannot update the bundle"
          pure (next,
            if current.consensusType ≠ oc.consensusType then []
            else encodedMetadataValue)
  | unknown =>
    .error (.panic ("Told to write a config block with unknown header " ++
      "type: " ++ toString unknown.code))

def blockValidation : GoString := ascii "/Channel/Orderer/BlockValidation"

/-- `newLedgerResources`: the bundle of the configuration in a block. -/
def newLedgerResources (configBlock : Block) : Outcome Bundle := do
  let (_, channelId, data) ← decodeHeader codec "block data does not carry an envelope"
    "error umarshaling envelope to payload" "missing channel header"
    "error unmarshalling channel header" configBlock
  let configEnvelope ← (Outcome.returned
    (codec.unmarshalConfigEnvelope data)).orPanic
      "error umarshaling config envelope from payload data"
  let bundle ← (newBundle codec.channelCodec channelId
    configEnvelope.config).orPanic "error creating channelconfig bundle"
  (Outcome.returned (codec.checkResources bundle)).orPanic "error checking bundle"
  if (bundle.policyManager.getPolicy blockValidation).isNone then
    .error (.panic "no policies in config block")
  else pure bundle

/-- `ConfigBlockOrPanic` and `newBlockWriter` on the last block. -/
def startWriter (ledger : Ledger) : Outcome BlockWriter :=
  match ledger.getLast? with
  | none => .error (.panic "Failed to retrieve block")
  | some last => do
      let index ← (getLastConfigIndexFromBlock last.block).orPanic
        ("Chain did not have appropriately encoded last config in its " ++ "latest block")
      match ledger[index]? with
      | none => .error (.panic "Failed to retrieve config block")
      | some configBlock => do
          let bundle ← newLedgerResources codec configBlock.block
          newBlockWriter last.block bundle

structure Process where
  writer : BlockWriter
  created : List Block

structure World where
  ledger : Ledger
  process : Option Process

inductive Event where
  | createNextBlock (messages : List Envelope)
  | writeBlock (encodedMetadataValue : Bytes)
  | commit
  | writeConfigBlock (encodedMetadataValue : Bytes)
  | restart

/-- `WriteBlock` up to its return. -/
def BlockWriter.pending (block : Block) (encodedMetadataValue : Bytes) : BlockWriter :=
  { bw with lastBlock := block, committing := some encodedMetadataValue }

/-- The writer that `WriteBlockSync` is called on, after `Update`. -/
def BlockWriter.update (bundle : Bundle) (block : Block) : BlockWriter :=
  { bw with bundle := bundle, lastBlock := block }

variable (world : World)

def World.fail : World :=
  { world with process := none }

def World.start : World :=
  match startWriter codec world.ledger with
  | .error _ => world.fail
  | .ok writer =>
    { world with process := some { writer := writer, created := [] } }

def World.commit (writer : BlockWriter)
    (created : List Block) (config : Bool) (encodedMetadataValue : Bytes) :
    World :=
  match commitBlock codec writer world.ledger config encodedMetadataValue with
  | .error _ => world.fail
  | .ok (next, ledger) =>
    { ledger := ledger
      process := some { writer := next, created := created } }

def World.handle (process : Process) : Event → World
  | .createNextBlock messages =>
    match createNextBlock codec process.writer.lastBlock messages with
    | .error _ => world.fail
    | .ok block =>
      { ledger := world.ledger
        process := some
          { process with created := process.created ++ [block] } }
  | .writeBlock encodedMetadataValue =>
    match process.created, process.writer.committing with
    | block :: created, none =>
      { ledger := world.ledger
        process := some
          { writer := process.writer.pending block encodedMetadataValue
            created := created } }
    | _, _ => world
  | .commit =>
    match process.writer.committing with
    | none => world
    | some encodedMetadataValue =>
      world.commit codec process.writer process.created false encodedMetadataValue
  | .writeConfigBlock encodedMetadataValue =>
    match process.created, process.writer.committing with
    | block :: created, none =>
      match configBundle codec process.writer.bundle block encodedMetadataValue with
      | .error _ => world.fail
      | .ok (bundle, metadata) =>
        world.commit codec (process.writer.update bundle block) created true metadata
    | _, _ => world
  | .restart => world.start codec

def World.step (event : Event) : World :=
  match world.process, event with
  | none, .restart => world.start codec
  | none, _ => world
  | some process, event => world.handle codec process event

def World.run (events : List Event) : World := events.foldl (World.step codec) world

end FabricSequencer.Blockwriter
