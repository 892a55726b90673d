import FabricSequencer.BlockSignature

/-!
# Proposals of the BFT orderer

The leader turns a batch of requests into a proposal and the followers check
it before they sign.  A proposal carries the header of the block in ASN.1 and
its data and metadata in a second ASN.1 value.

The ASN.1 package is a boundary (`Codec`): its decoder undoes its encoder.
Policies, configuration checks and the structure of identities are parameters
of the `Verifier`.
-/

namespace FabricSequencer.Smartbft

open ProtoWire Framing Protoutil Blockwriter

/-! ## Encodings -/

/-- A message whose only field is a list of byte strings: `BlockData` and
`BlockMetadata`. -/
def marshalRepeated (items : List Bytes) : Bytes :=
  items.flatMap fun item => appendVarint 10 ++ appendBytes item

variable (input : Bytes)

def unmarshalRepeated : Except WireError (List Bytes) := do
  let fields ← fieldsOf input
  .ok ((fields.filter fun field => field.tag = 10).map Field.content)

def appendVarintField (number value : ℕ) : Bytes :=
  if value = 0 then [] else appendVarint (number * 8) ++ appendVarint value

structure LastConfig where
  index : ℕ := 0
  unknownFields : List Field := []

def LastConfig.set (lastConfig : LastConfig) (field : Field) : LastConfig :=
  if field.tag = 8 then { lastConfig with index := uint64 field.scalar }
  else
    { lastConfig with unknownFields := lastConfig.unknownFields ++ [field] }

def unmarshalLastConfig : Except WireError LastConfig := do
  let fields ← fieldsOf input
  .ok (fields.foldl LastConfig.set {})

def marshalLastConfig (index : ℕ) : Bytes := appendVarintField 1 index

structure OrdererBlockMetadata where
  lastConfig : Option LastConfig := none
  consenterMetadata : Bytes := []
  unknownFields : List Field := []

def OrdererBlockMetadata.set (md : OrdererBlockMetadata) (field : Field) :
    Except WireError OrdererBlockMetadata :=
  if field.tag = 10 then do
    let fields ← fieldsOf field.content
    .ok
      { md with
        lastConfig := some (fields.foldl LastConfig.set (md.lastConfig.getD {})) }
  else if field.tag = 18 then
    .ok { md with consenterMetadata := field.content }
  else .ok { md with unknownFields := md.unknownFields ++ [field] }

def unmarshalOrdererBlockMetadata : Except WireError OrdererBlockMetadata := do
  let fields ← fieldsOf input
  fields.foldlM OrdererBlockMetadata.set {}

def marshalOrdererBlockMetadata (lastConfig : ℕ) (consenterMetadata : Bytes) : Bytes :=
  appendVarint 10 ++ appendBytes (marshalLastConfig lastConfig) ++
    appendBytesField 2 consenterMetadata

def marshalMetadataValue (value : Bytes) : Bytes := appendBytesField 1 value

def consumeVarints : ℕ → Bytes → Except WireError (List ℕ)
  | _, [] => .ok []
  | 0, _ :: _ => .error .truncated
  | fuel + 1, byte :: input => do
      let (value, rest) ← consumeVarint (byte :: input)
      let values ← consumeVarints fuel rest
      .ok (value :: values)

structure ViewMetadata where
  viewId : ℕ := 0
  latestSequence : ℕ := 0
  decisionsInView : ℕ := 0
  blackList : List ℕ := []
  prevCommitSignatureDigest : Bytes := []
  unknownFields : List Field := []
deriving DecidableEq

def ViewMetadata.set (md : ViewMetadata) (field : Field) : Except WireError ViewMetadata :=
  if field.tag = 8 then .ok { md with viewId := uint64 field.scalar }
  else if field.tag = 16 then
    .ok { md with latestSequence := uint64 field.scalar }
  else if field.tag = 24 then
    .ok { md with decisionsInView := uint64 field.scalar }
  else if field.tag = 32 then
    .ok { md with blackList := md.blackList ++ [uint64 field.scalar] }
  else if field.tag = 34 then do
    let values ← consumeVarints field.content.length field.content
    .ok { md with blackList := md.blackList ++ values }
  else if field.tag = 42 then
    .ok { md with prevCommitSignatureDigest := field.content }
  else .ok { md with unknownFields := md.unknownFields ++ [field] }

def unmarshalViewMetadata : Except WireError ViewMetadata := do
  let fields ← fieldsOf input
  fields.foldlM ViewMetadata.set {}

/-- `proto.Equal` on unknown fields: for each number the same bytes. -/
def equalUnknown (first second : List Field) : Bool :=
  (first ++ second).all fun field =>
    let of := fun (fields : List Field) =>
      (fields.filter fun other => other.tag / 8 = field.tag / 8).flatMap Field.encode
    of first = of second

def ViewMetadata.equal (first second : ViewMetadata) : Bool :=
  { first with unknownFields := [] } = { second with unknownFields := [] } &&
    equalUnknown first.unknownFields second.unknownFields

/-- `hex.EncodeToString`. -/
def hexDigit (n : ℕ) : Byte :=
  if n < 10 then Fin.ofNat 256 (48 + n) else Fin.ofNat 256 (87 + n)

def hexEncode (bytes : Bytes) : GoString :=
  bytes.flatMap fun byte => [hexDigit (byte.val / 16), hexDigit (byte.val % 16)]

def int64 (n : ℕ) : ℤ :=
  if n % 2 ^ 64 < 2 ^ 63 then (n % 2 ^ 64 : ℕ) else (n % 2 ^ 64 : ℕ) - 2 ^ 64

/-- The conversion `uint64(n)` of a signed number. -/
def uint64OfInt (n : ℤ) : ℕ := (n % 2 ^ 64).toNat

structure Asn1Header where
  number : ℤ
  previousHash : Bytes
  dataHash : Bytes

structure Codec where
  marshalHeader : Asn1Header → Bytes
  unmarshalHeader : Bytes → Option Asn1Header
  unmarshal_marshalHeader : ∀ header, unmarshalHeader (marshalHeader header) = some header
  marshalHeader_ne : ∀ header, marshalHeader header ≠ []
  marshalTuple : Bytes → Bytes → Bytes
  unmarshalTuple : Bytes → Option (Bytes × Bytes)
  unmarshal_marshalTuple : ∀ first second,
    unmarshalTuple (marshalTuple first second) = some (first, second)
  marshalTuple_ne : ∀ first second, marshalTuple first second ≠ []
  sha256 : Bytes → Bytes

variable (codec : Codec)

def blockHeaderBytes (header : BlockHeader) : Bytes :=
  codec.marshalHeader ⟨uint64 header.number, header.previousHash, header.dataHash⟩

def blockHeaderHash (header : BlockHeader) : Bytes := codec.sha256 (blockHeaderBytes codec header)

structure Proposal where
  header : Bytes
  payload : Bytes
  metadata : Bytes
  verificationSequence : ℤ

structure Block where
  header : BlockHeader
  data : List Bytes
  metadata : List Bytes

def metadataSlots : ℕ := 5

def asn1Text : String := "asn1: structure error"

/-- `ProposalToBlock`.  `Uint64` keeps the low bits of the absolute value. -/
def proposalToBlock (proposal : Proposal) : Except String Block :=
  if proposal.header.length = 0 then
    .error "proposal header cannot be nil"
  else
    match codec.unmarshalHeader proposal.header with
    | none => .error ("bad header: " ++ asn1Text)
    | some hdr =>
      if proposal.payload.length = 0 then
        .error "proposal payload cannot be nil"
      else
        match codec.unmarshalTuple proposal.payload with
        | none => .error ("bad payload and metadata tuple: " ++ asn1Text)
        | some (first, second) =>
          match unmarshalRepeated first with
          | .error _ => .error ("bad payload: " ++ unmarshalText)
          | .ok data =>
            match unmarshalRepeated second with
            | .error _ => .error ("bad metadata: " ++ unmarshalText)
            | .ok metadata =>
              .ok
                { header := ⟨uint64 hdr.number.natAbs, hdr.previousHash, hdr.dataHash⟩
                  data := data
                  metadata := metadata }

/-- The parts of the runtime configuration a proposal is checked against.  The
hash is recorded together with the block whenever one is committed. -/
structure RuntimeConfig where
  lastCommittedBlockHash : GoString
  lastBlock : BlockHeader
  lastConfigBlock : ℕ
  lastConfigBlock_lt : lastConfigBlock < 2 ^ 64
  hash_eq : lastCommittedBlockHash = hexEncode (blockHeaderHash codec lastBlock)

structure RequestInfo where
  id : GoString := []
  clientId : GoString := []

structure Request where
  chHdr : ChannelHeader
  sigHdr : SignatureHeader
  envelope : Envelope

structure Verifier where
  channel : GoString
  accessController : SignedData → Except String Unit
  validateConfig : Envelope → Except String Unit
  /-- The creator decodes and `ValidateIdentityStructure` takes it. -/
  validateCreator : Bytes → Except String Unit
  /-- The last update of an encoded configuration envelope. -/
  lastUpdate : Bytes → Except String (Option Envelope)
  verificationSequence : ℕ

def headerTypeEndorserTransaction : ℤ := 3

def headerTypeOrdererTransaction : ℤ := 4

/-- `HeaderType_name`, empty for a number without a name. -/
def headerTypeName (type : ℤ) : String :=
  if type = 0 then "MESSAGE"
  else if type = 1 then "CONFIG"
  else if type = 2 then "CONFIG_UPDATE"
  else if type = 3 then "ENDORSER_TRANSACTION"
  else if type = 4 then "ORDERER_TRANSACTION"
  else if type = 5 then "DELIVER_SEEK_INFO"
  else if type = 6 then "CHAINCODE_PACKAGE"
  else ""

def unwrapReqFromEnvelop (envelope : Envelope) : Except String Request :=
  match unmarshalPayload envelope.payload with
  | .error _ => .error ("failed unmarshaling payload: " ++ unmarshalText)
  | .ok payload =>
    match payload.header with
    | none => .error "no header in payload"
    | some header =>
      match unmarshalSignatureHeader (header.signatureHeader.getD []) with
      | .error _ => .error unmarshalText
      | .ok sigHdr =>
        if (header.channelHeader.getD []).length = 0 then
          .error "no channel header in payload"
        else
          match unmarshalChannelHeader (header.channelHeader.getD []) with
          | .error _ =>
            .error ("error unmarshaling channel header: " ++
              "error unmarshalling ChannelHeader: " ++ unmarshalText)
          | .ok chHdr => .ok ⟨chHdr, sigHdr, envelope⟩

def unwrapReq (req : Bytes) : Except String Request :=
  match unmarshal req with
  | .error _ => .error ("error unmarshalling Envelope: " ++ unmarshalText)
  | .ok envelope => unwrapReqFromEnvelop envelope

namespace Verifier

variable (v : Verifier)

def requestIDFromSigHeader (sigHdr : SignatureHeader) : Except String RequestInfo := do
  v.validateCreator sigHdr.creator
  .ok
    { id := hexEncode (codec.sha256 (sigHdr.nonce ++ sigHdr.creator))
      clientId := hexEncode (codec.sha256 sigHdr.creator) }

def requestIDFromEnvelope : Option Envelope → Except String RequestInfo
  | none => .error "proto: Marshal called with nil"
  | some envelope => do
      let req ← unwrapReqFromEnvelop envelope
      .ok
        { id := hexEncode (codec.sha256 (marshal envelope))
          clientId := hexEncode (codec.sha256 req.sigHdr.creator) }

/-- `RequestID`: any failure gives the empty info.  The data of the payload was
decoded before, so only the configuration envelope in it can fail. -/
def requestID (rawReq : Bytes) : RequestInfo :=
  match unwrapReq rawReq with
  | .error _ => {}
  | .ok req =>
    if req.chHdr.type = headerTypeConfig then
      match unmarshalPayload req.envelope.payload with
      | .error _ => {}
      | .ok payload =>
        match v.lastUpdate payload.data with
        | .error _ => {}
        | .ok lastUpdate =>
          match requestIDFromEnvelope codec lastUpdate with
          | .error _ => {}
          | .ok reqInfo => reqInfo
    else
      match v.requestIDFromSigHeader codec req.sigHdr with
      | .error _ => {}
      | .ok reqInfo => reqInfo

def isEmpty (req : RequestInfo) : Bool := req.id.length = 0 && req.clientId.length = 0

def verifyRequest (rawRequest : Bytes) (noConfigAllowed : Bool) : Except String RequestInfo := do
  let req ← unwrapReq rawRequest
  match v.accessController ⟨req.sigHdr.creator, req.envelope.payload, req.envelope.signature⟩ with
  | .error err => .error ("access denied: " ++ err)
  | .ok _ =>
    if noConfigAllowed ∧ req.chHdr.type ≠ headerTypeEndorserTransaction then
      .error "only endorser transactions can be sent with other transactions"
    else if req.chHdr.channelId ≠ v.channel then
      .error ("request is for channel " ++ printed req.chHdr.channelId ++
        " but expected channel " ++ printed v.channel)
    else if req.chHdr.type = headerTypeOrdererTransaction then
      .error "orderer transactions are not supported in v3"
    else if req.chHdr.type ≠ headerTypeConfig ∧ req.chHdr.type ≠ headerTypeEndorserTransaction then
      .error ("transaction of type " ++ headerTypeName req.chHdr.type ++
        " is not allowed to be included in blocks")
    else if req.chHdr.type = headerTypeConfig then do
      v.validateConfig req.envelope
      let reqID := v.requestID codec rawRequest
      if isEmpty reqID then .error "request id is empty" else .ok reqID
    else v.requestIDFromSigHeader codec req.sigHdr

def verifyHashChain (block : Block) (prevHeaderHash : GoString) : Except String Unit :=
  if prevHeaderHash ≠ hexEncode block.header.previousHash then
    .error ("previous header hash is " ++
      printed (hexEncode block.header.previousHash) ++ " but expected " ++
      printed prevHeaderHash)
  else do
    let dataHash ← blockDataHash codec.sha256 block.data
    if hexEncode block.header.dataHash ≠ hexEncode dataHash then
      .error ("data hash is " ++ printed (hexEncode block.header.dataHash) ++
        " but expected " ++ printed (hexEncode dataHash))
    else .ok ()

def getMetadataFromBlock (block : Block) (index : ℕ) (name : String) : Except String Metadata :=
  match block.metadata[index]? with
  | none => .error ("no metadata at index [" ++ name ++ "]")
  | some bytes =>
    match unmarshalMetadata bytes with
    | .error _ =>
      .error ("error unmarshalling metadata at index [" ++ name ++ "]: " ++ unmarshalText)
    | .ok md => .ok md

def validateTransactions (blockData : List Bytes) : Except String (List RequestInfo) :=
  blockData.mapM fun payload =>
    v.verifyRequest codec payload (decide (blockData.length > 1))

def viewText (md : ViewMetadata) : String :=
  "[view_id:" ++ toString md.viewId ++ " latest_sequence:" ++ toString md.latestSequence ++ "]"

def expectedLastConfig {codec : Codec} (rtc : RuntimeConfig codec) (block : Block) : ℕ :=
  if hasConfigTx block.data then block.header.number else rtc.lastConfigBlock

/-- The checks of `verifyBlockDataAndMetadata` before the transactions. -/
def verifyMetadata {codec : Codec} (rtc : RuntimeConfig codec) (block : Block)
    (metadata : Bytes) : Except String Unit := do
  let signatureMetadata ← getMetadataFromBlock block 0 "SIGNATURES"
  match unmarshalOrdererBlockMetadata signatureMetadata.value with
  | .error _ => .error ("failed unmarshaling OrdererBlockMetadata: " ++ unmarshalText)
  | .ok ordererMetadata =>
    match unmarshalViewMetadata ordererMetadata.consenterMetadata with
    | .error _ => .error ("failed unmarshaling smartbft metadata from block: " ++ unmarshalText)
    | .ok metadataInBlock =>
      match unmarshalViewMetadata metadata with
      | .error _ =>
        .error ("failed unmarshaling smartbft metadata from proposal: " ++ unmarshalText)
      | .ok metadataFromProposal =>
        if !metadataInBlock.equal metadataFromProposal then
          .error ("expected metadata in block to be " ++
            viewText metadataFromProposal ++ " but got " ++
            viewText metadataInBlock)
        else
          match ordererMetadata.lastConfig with
          | none => .error "last config is nil"
          | some lastConfig =>
            if lastConfig.index ≠ expectedLastConfig rtc block then
              .error ("last config in block orderer metadata points " ++
                "to " ++ toString lastConfig.index ++
                " but our persisted last config is " ++
                toString (expectedLastConfig rtc block))
            else do
              let rawLastConfig ← getMetadataFromBlock block 1 "LAST_CONFIG"
              match unmarshalLastConfig rawLastConfig.value with
              | .error _ => .error unmarshalText
              | .ok lastConf =>
                if lastConf.index ≠ expectedLastConfig rtc block then
                  .error ("last config in block metadata points " ++
                    "to " ++ toString lastConfig.index ++
                    " but our persisted last config is " ++
                    toString (expectedLastConfig rtc block))
                else .ok ()

def verifyBlockDataAndMetadata {codec : Codec} (rtc : RuntimeConfig codec)
    (block : Block) (metadata : Bytes) : Except String (List RequestInfo) :=
  if block.data.length = 0 then .error "empty block data"
  else if block.metadata.length < metadataSlots then
    .error "block metadata is either missing or contains too few entries"
  else do
    verifyMetadata rtc block metadata
    v.validateTransactions codec block.data

def verifyProposal {codec : Codec} (rtc : RuntimeConfig codec)
    (proposal : Proposal) : Except String (List RequestInfo) := do
  let block ← proposalToBlock codec proposal
  verifyHashChain codec block rtc.lastCommittedBlockHash
  let requests ← v.verifyBlockDataAndMetadata rtc block proposal.metadata
  if uint64 v.verificationSequence ≠ uint64OfInt proposal.verificationSequence then
    .error ("expected verification sequence " ++
      toString v.verificationSequence ++ ", but proposal has " ++
      toString proposal.verificationSequence)
  else .ok requests

end Verifier

def isConfigTransaction (envelope : Envelope) : Bool :=
  match unmarshalPayload envelope.payload with
  | .error _ => false
  | .ok payload =>
    match payload.header with
    | none => false
    | some header =>
      match unmarshalChannelHeader (header.channelHeader.getD []) with
      | .error _ => false
      | .ok hdr => hdr.type = headerTypeConfig || hdr.type = headerTypeOrdererTransaction

/-- The loop of `singleConfigTxOrSeveralNonConfigTx`; a request that is no
envelope is a panic. -/
def requestsBeforeConfig : List Bytes → Outcome (List Bytes)
  | [] => .ok []
  | currentRequest :: rest =>
    match unmarshal currentRequest with
    | .error _ =>
      .error (.panic ("Programming error, received bad envelope but " ++
        "should have validated it: error unmarshalling Envelope: " ++
        unmarshalText))
    | .ok envelope =>
      if isConfigTransaction envelope then .ok []
      else do
        let batched ← requestsBeforeConfig rest
        .ok (currentRequest :: batched)

def singleConfigTxOrSeveralNonConfigTx (requests : List Bytes) : Outcome (List Bytes) := do
  let batchedRequests ← requestsBeforeConfig requests
  if batchedRequests.length = 0 then .ok (requests.take 1)
  else .ok batchedRequests

/-- The block of a batch, as `AssembleProposal` builds it. -/
def assembleBlock {codec : Codec} (rtc : RuntimeConfig codec)
    (metadata : Bytes) (batchedRequests : List Bytes) : Block :=
  let number := uint64 (rtc.lastBlock.number + 1)
  let lastConfigBlockNum :=
    if hasConfigTx batchedRequests then number else rtc.lastConfigBlock
  { header :=
      ⟨number, blockHeaderHash codec rtc.lastBlock,
        computeBlockDataHash codec.sha256 batchedRequests⟩
    data := batchedRequests
    metadata :=
      [marshalMetadataValue (marshalOrdererBlockMetadata lastConfigBlockNum metadata),
        marshalMetadataValue (marshalLastConfig lastConfigBlockNum), [], [],
        []] }

def blockProposal (block : Block) (metadata : Bytes) (verificationSequence : ℕ) : Proposal where
  header := blockHeaderBytes codec block.header
  payload := codec.marshalTuple (marshalRepeated block.data) (marshalRepeated block.metadata)
  metadata := metadata
  verificationSequence := int64 verificationSequence

def assembleProposal {codec : Codec} (rtc : RuntimeConfig codec)
    (verificationSequence : ℕ) (metadata : Bytes) (requests : List Bytes) :
    Outcome Proposal :=
  if requests.length = 0 then
    .error (.panic "Programming error, no requests in proposal")
  else do
    let batchedRequests ← singleConfigTxOrSeveralNonConfigTx requests
    .ok (blockProposal codec (assembleBlock rtc metadata batchedRequests)
      metadata verificationSequence)

end FabricSequencer.Smartbft
