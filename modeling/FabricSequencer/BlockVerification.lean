import FabricSequencer.BlockData
import FabricSequencer.BlockWriter

/-!
# Verifying a stream of blocks

`deliverclient.BlockVerificationAssistant` checks each block of a stream
against the header before it and against the orderers' signatures.

A nil block data behaves as an empty one.  What `VerifierFromConfig` makes of a
configuration, the encoding of a header and the hash function are given.
-/

namespace FabricSequencer.Deliverclient

open Protoutil Framing
open Blockwriter (BlockHeader)

structure Block where
  header : Option BlockHeader
  data : List Bytes
  metadata : Option (List Bytes)
deriving DecidableEq

abbrev BlockVerifierFunc := BlockHeader → List Bytes → Except String Unit

structure VerifierCodec (Config : Type) where
  blockHeaderBytes : BlockHeader → Bytes
  hash : Bytes → Bytes
  hash_ne_nil : ∀ input, hash input ≠ []
  unmarshalConfigEnvelope : Bytes → Except String Config
  verifierFromConfig : Config → GoString → Except String BlockVerifierFunc

def hexEncode (bytes : Bytes) : String :=
  String.ofList (bytes.flatMap fun byte =>
    [Nat.digitChar (byte.val / 16), Nat.digitChar (byte.val % 16)])

/-- `len(common.BlockMetadataIndex_name)`. -/
def blockMetadataIndexCount : ℕ := 5

variable {Config : Type} (codec : VerifierCodec Config)

def blockHeaderHash (header : BlockHeader) : Bytes := codec.hash (codec.blockHeaderBytes header)

theorem blockHeaderHash_ne_nil (header : BlockHeader) : blockHeaderHash codec header ≠ [] :=
  codec.hash_ne_nil _

def isConfigBlock (block : Block) : Bool := hasConfigTx block.data

def withMessage {α : Type} (message : String) (result : Except String α) : Except String α :=
  result.mapError fun err => message ++ ": " ++ err

theorem withMessage_ok_iff {α : Type} {msg : String} {r : Except String α} {value : α} :
    withMessage msg r = .ok value ↔ r = .ok value := by
  cases r <;> simp [withMessage, Except.mapError]

/-- `GetEnvelopeFromBlock`, `UnmarshalPayload` and `UnmarshalChannelHeader`
differ in what they read and in the name they give it. -/
def unmarshalNamed {α : Type} (name : String)
    (result : Except ProtoWire.WireError α) : Except String α :=
  result.mapError fun _ => "error unmarshalling " ++ name ++ ": " ++ unmarshalText

/-- `ExtractEnvelope` at the index 0. -/
def extractEnvelope (block : Block) : Except String Envelope :=
  match block.data with
  | [] => .error "envelope index out of bounds"
  | marshaledEnvelope :: _ =>
    withMessage "block data does not carry an envelope at index 0"
      (unmarshalNamed "Envelope" (unmarshal marshaledEnvelope))

/-- The channel header of a payload; `noHeader` is the error for a payload
without a header. -/
def payloadChannelHeader (noHeader : String) (payload : Payload) : Except String ChannelHeader :=
  match payload.header with
  | none => .error noHeader
  | some header =>
    unmarshalNamed "ChannelHeader" (unmarshalChannelHeader (header.channelHeader.getD []))

/-- `ConfigFromBlock`.  The genesis block is not asked for its type. -/
def configFromBlock (number : ℕ) (block : Block) : Except String Config :=
  match block.data with
  | [] => .error "empty block"
  | txn :: _ => do
      let env ← unmarshalNamed "Envelope" (unmarshal txn)
      let payload ← unmarshalNamed "Payload" (unmarshalPayload env.payload)
      if number = 0 then
        withMessage "invalid config envelope" (codec.unmarshalConfigEnvelope payload.data)
      else do
        let chdr ← payloadChannelHeader "nil header in payload" payload
        if chdr.type ≠ headerTypeConfig then .error "not a config block"
        else
          withMessage "invalid config envelope" (codec.unmarshalConfigEnvelope payload.data)

/-- The verifier that `UpdateConfig` builds from a configuration block. -/
def verifierFromBlock (channelID : GoString) (configBlock : Block) :
    Except String BlockVerifierFunc := do
  let configTx ← withMessage "error extracting envelope" (extractEnvelope configBlock)
  let payload ← withMessage "error unmarshalling envelope to payload"
    (unmarshalNamed "Payload" (unmarshalPayload configTx.payload))
  let chdr ← payloadChannelHeader "missing channel header" payload
  if chdr.channelId ≠ channelID then
    .error ("config block channel ID [" ++ printed chdr.channelId ++
      "] does not match expected: [" ++ printed channelID ++ "]")
  else do
    let configEnvelope ←
      withMessage "error unmarshalling config envelope from payload data"
        (codec.unmarshalConfigEnvelope payload.data)
    withMessage "error creating verifier function"
      (codec.verifierFromConfig configEnvelope chdr.channelId)

/-! ## The assistant -/

/-- Of the last header only the number and the hash are read.  Both
constructors see to it that the hash is there. -/
structure BlockVerificationAssistant where
  channelID : GoString
  sigVerifierFunc : BlockVerifierFunc
  lastBlockNumber : ℕ
  lastBlockHeaderHash : Bytes
  hash_ne_nil : lastBlockHeaderHash ≠ []

namespace BlockVerificationAssistant

variable (a : BlockVerificationAssistant)

section

variable (header : BlockHeader)

/-- `UpdateBlockHeader`, and the end of `VerifyBlock`. -/
def updateBlockHeader : BlockVerificationAssistant :=
  { a with
    lastBlockNumber := header.number
    lastBlockHeaderHash := blockHeaderHash codec header
    hash_ne_nil := blockHeaderHash_ne_nil codec header }

/-- `UpdateConfig` of a block with this header. -/
def updateConfig (configBlock : Block) : Except String BlockVerificationAssistant := do
  let verifierFunc ← verifierFromBlock codec a.channelID configBlock
  pure { a.updateBlockHeader codec header with
    sigVerifierFunc := verifierFunc }

/-- `verifyHeader`, for a block that has a header. -/
def verifyHeader : Except String Unit :=
  let expectedBlockNum := uint64 (a.lastBlockNumber + 1)
  if expectedBlockNum ≠ header.number then
    .error ("expected block number is [" ++ toString expectedBlockNum ++
      "] but actual block number inside block is [" ++
      toString header.number ++ "]")
  else if a.lastBlockHeaderHash.length ≠ 0 ∧ header.previousHash ≠ a.lastBlockHeaderHash then
    .error ("Header.PreviousHash of block [" ++ toString header.number ++
      "] is different from Hash(block.Header) of previous block, on channel [" ++
      printed a.channelID ++ "], received: " ++
      hexEncode header.previousHash ++ ", expected: " ++
      hexEncode a.lastBlockHeaderHash)
  else .ok ()

variable (block : Block)

def verifyMetadata : Except String (List Bytes) :=
  match block.metadata with
  | some metadata =>
    if metadata.length < blockMetadataIndexCount then
      .error ("block with id [" ++ toString header.number ++
        "] on channel [" ++ printed a.channelID ++
        "] does not have metadata or contains too few entries")
    else .ok metadata
  | none =>
    .error ("block with id [" ++ toString header.number ++ "] on channel [" ++
      printed a.channelID ++
      "] does not have metadata or contains too few entries")

/-- `VerifyBlock`, for a block that has a header. -/
def verifyBlock : Except String BlockVerificationAssistant := do
  a.verifyHeader header
  let metadata ← a.verifyMetadata header block
  let dataHash ←
    withMessage ("failed to verify transactions are well formed for block " ++
      "with id [" ++ toString header.number ++ "] on channel [" ++
      printed a.channelID ++ "]") (blockDataHash codec.hash block.data)
  if dataHash ≠ header.dataHash then
    .error ("Header.DataHash is different from Hash(block.Data) for block " ++
      "with id [" ++ toString header.number ++ "] on channel [" ++
      printed a.channelID ++ "]; Header: " ++ hexEncode header.dataHash ++
      ", Data: " ++ hexEncode dataHash)
  else
    a.sigVerifierFunc header metadata
    pure (a.updateBlockHeader codec header)

structure Fits : Prop where
  previousHash : header.previousHash = a.lastBlockHeaderHash
  dataHash : blockDataHash codec.hash block.data = .ok header.dataHash
  signed : ∃ metadata, block.metadata = some metadata ∧ blockMetadataIndexCount ≤ metadata.length ∧
    a.sigVerifierFunc header metadata = .ok ()

structure Accepts : Prop extends a.Fits codec header block where
  number : header.number = uint64 (a.lastBlockNumber + 1)

end

variable {a : BlockVerificationAssistant} {header : BlockHeader}

theorem verifyHeader_ok_iff :
    a.verifyHeader header = .ok () ↔
      header.number = uint64 (a.lastBlockNumber + 1) ∧
        header.previousHash = a.lastBlockHeaderHash := by
  have hl : a.lastBlockHeaderHash.length ≠ 0 := by
    simpa using a.hash_ne_nil
  unfold verifyHeader
  dsimp only
  split_ifs with hn hhs
  · simp only [false_iff, not_and]
    intro heq
    exact absurd heq.symm hn
  · simp only [false_iff, not_and]
    intro _ heq
    exact hhs.2 heq
  · rw [not_and, not_not] at hhs
    rw [not_not] at hn
    exact iff_of_true rfl ⟨hn.symm, hhs hl⟩

theorem verifyMetadata_ok_iff {block : Block} {md : List Bytes} :
    a.verifyMetadata header block = .ok md ↔
      block.metadata = some md ∧ blockMetadataIndexCount ≤ md.length := by
  unfold verifyMetadata
  cases hmt : block.metadata with
  | none => simp
  | some =>
    dsimp only
    split_ifs with hsh
    · simp only [Option.some.injEq, false_iff, not_and]
      rintro rfl
      exact not_le.mpr hsh
    simp only [Except.ok.injEq, Option.some.injEq]
    constructor
    · rintro rfl
      exact ⟨rfl, not_lt.mp hsh⟩
    · exact And.left

theorem verifyBlock_ok_iff {a post : BlockVerificationAssistant} {block : Block} :
    a.verifyBlock codec header block = .ok post ↔
      a.Accepts codec header block ∧ post = a.updateBlockHeader codec header := by
  constructor
  · intro hv
    obtain ⟨_, hh, hv⟩ := of_bind hv
    obtain ⟨md, hmt, hv⟩ := of_bind hv
    obtain ⟨_, hdt, hv⟩ := of_bind hv
    split_ifs at hv with heq
    rw [not_not] at heq
    subst heq
    obtain ⟨_, hsg, hpu⟩ := of_bind hv
    obtain ⟨hn, hpr⟩ := verifyHeader_ok_iff.mp hh
    obtain ⟨hb, hl⟩ := verifyMetadata_ok_iff.mp hmt
    have hft : a.Fits codec header block := ⟨hpr, withMessage_ok_iff.mp hdt, md, hb, hl, hsg⟩
    exact ⟨⟨hft, hn⟩, (Except.ok.inj hpu).symm⟩
  · rintro ⟨⟨⟨hpr, hdt, _, hb, hl, hsg⟩, hn⟩, rfl⟩
    unfold verifyBlock
    rw [verifyHeader_ok_iff.mpr ⟨hn, hpr⟩]
    refine bind_of_ok rfl ?_
    refine bind_of_ok (verifyMetadata_ok_iff.mpr ⟨hb, hl⟩) ?_
    refine bind_of_ok (withMessage_ok_iff.mpr hdt) ?_
    rw [if_neg (not_not.mpr rfl)]
    exact bind_of_ok hsg rfl

end BlockVerificationAssistant

end FabricSequencer.Deliverclient
