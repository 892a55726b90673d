import FabricSequencer.BlockData
import FabricSequencer.BlockWriter

/-!
# Signatures of a block and the policy over them

A block carries its signatures in a metadata slot.  `BlockSignatureVerifier`
turns each of them into signed data and hands the list to a policy.  In a BFT
channel a signature names its consenter by number and the policy asks for the
identities of a quorum of consenters.

Certificates and keys are a boundary: an `Msp` reads identities and checks
their signatures.
-/

namespace FabricSequencer.Protoutil

open ProtoWire Blockwriter

structure MetadataSignature where
  signatureHeader : Bytes := []
  signature : Bytes := []
  identifierHeader : Bytes := []

def MetadataSignature.set (signature : MetadataSignature) (field : Field) : MetadataSignature :=
  if field.tag = 10 then { signature with signatureHeader := field.content }
  else if field.tag = 18 then { signature with signature := field.content }
  else if field.tag = 26 then
    { signature with identifierHeader := field.content }
  else signature

structure Metadata where
  value : Bytes := []
  signatures : List MetadataSignature := []

def Metadata.set (md : Metadata) (field : Field) : Except WireError Metadata :=
  if field.tag = 10 then .ok { md with value := field.content }
  else if field.tag = 18 then do
    let fields ← fieldsOf field.content
    .ok
      { md with
        signatures := md.signatures ++ [fields.foldl MetadataSignature.set {}] }
  else .ok md

def unmarshalMetadata (input : Bytes) : Except WireError Metadata := do
  let fields ← fieldsOf input
  fields.foldlM Metadata.set {}

structure IdentifierHeader where
  identifier : ℕ := 0
  nonce : Bytes := []

def IdentifierHeader.set (header : IdentifierHeader) (field : Field) : IdentifierHeader :=
  if field.tag = 8 then { header with identifier := uint32 field.scalar }
  else if field.tag = 18 then { header with nonce := field.content }
  else header

def unmarshalIdentifierHeader (input : Bytes) : Except WireError IdentifierHeader := do
  let fields ← fieldsOf input
  .ok (fields.foldl IdentifierHeader.set {})

structure SignatureHeader where
  creator : Bytes := []
  nonce : Bytes := []

def SignatureHeader.set (header : SignatureHeader) (field : Field) : SignatureHeader :=
  if field.tag = 10 then { header with creator := field.content }
  else if field.tag = 18 then { header with nonce := field.content }
  else header

def unmarshalSignatureHeader (input : Bytes) : Except WireError SignatureHeader := do
  let fields ← fieldsOf input
  .ok (fields.foldl SignatureHeader.set {})

def marshalSerializedIdentity (mspid : GoString) (idBytes : Bytes) : Bytes :=
  appendBytesField 1 mspid ++ appendBytesField 2 idBytes

structure Msp (Identity : Type) where
  deserialize : Bytes → Option Identity
  mspid : Identity → GoString
  id : Identity → GoString
  certRaw : Identity → Bytes
  validate : Identity → Bool
  verify : Identity → Bytes → Bytes → Bool
  ext : ∀ one other, mspid one = mspid other → certRaw one = certRaw other → one = other

/-- The key under which duplicates are dropped. -/
def Msp.key {Identity : Type} (msp : Msp Identity) (identity : Identity) : GoString :=
  msp.mspid identity ++ msp.id identity

/-- `SatisfiesPrincipal` for an identity principal, asked of the MSP of the
identity, which reads principals of its own only. -/
def Msp.satisfiesPrincipal {Identity : Type} (msp : Msp Identity)
    (identity : Identity) (principal : Bytes) : Bool :=
  match msp.deserialize principal with
  | none => false
  | some principalId =>
    msp.mspid identity = msp.mspid principalId && msp.certRaw identity = msp.certRaw principalId &&
      msp.validate principalId

structure SignedData where
  identity : Bytes
  data : Bytes
  signature : Bytes

inductive SignaturePolicy where
  | signedBy (index : ℤ)
  | nOutOf (n : ℤ) (rules : List SignaturePolicy)

variable {Identity : Type} (msp : Msp Identity)

/-- The loop of `SignatureSetToValidIdentities` with the keys seen so far. -/
def validIdentities : List GoString → List SignedData → List Identity
  | _, [] => []
  | seen, sd :: rest =>
    match msp.deserialize sd.identity with
    | none => validIdentities seen rest
    | some identity =>
      if msp.key identity ∈ seen then validIdentities seen rest
      else if !msp.verify identity sd.data sd.signature then
        validIdentities seen rest
      else identity :: validIdentities (msp.key identity :: seen) rest

def signatureSetToValidIdentities (signatureSet : List SignedData) : List Identity :=
  validIdentities msp [] signatureSet

mutual

/-- What `compile` refuses. -/
def compile (principals : List Bytes) : SignaturePolicy → Except String Unit
  | .signedBy index =>
    if index < 0 ∨ index ≥ int32 principals.length then
      .error ("identity index out of range, requested " ++ toString index ++
        ", but identities length is " ++ toString principals.length)
    else .ok ()
  | .nOutOf _ rules => compileAll principals rules

def compileAll (principals : List Bytes) : List SignaturePolicy → Except String Unit
  | [] => .ok ()
  | rule :: rules => do
      compile principals rule
      compileAll principals rules

end

/-- The loop of the evaluator for `SignedBy`: the flags after the first unused
identity that satisfies the principal is marked. -/
def useFirst (principal : Bytes) : List Identity → List Bool → Option (List Bool)
  | identity :: identities, use :: used =>
    if !use && msp.satisfiesPrincipal identity principal then
      some (true :: used)
    else (useFirst principal identities used).map (use :: ·)
  | _, _ => none

mutual

/-- The evaluator `compile` builds: its verdict and the flags of the
identities it has used. -/
def evaluate (principals : List Bytes) (signedData : List Identity) :
    SignaturePolicy → List Bool → Bool × List Bool
  | .signedBy index, used =>
    match useFirst msp (principals.getD index.toNat []) signedData used with
    | some after => (true, after)
    | none => (false, used)
  | .nOutOf n rules, used =>
    let (verified, after) := evaluateAll principals signedData rules used
    (decide (int32 verified ≥ n), after)

def evaluateAll (principals : List Bytes) (signedData : List Identity) :
    List SignaturePolicy → List Bool → ℕ × List Bool
  | [], used => (0, used)
  | rule :: rules, used =>
    let (satisfied, tried) := evaluate principals signedData rule used
    let (verified, after) := evaluateAll principals signedData rules
      (if satisfied then tried else used)
    ((if satisfied then verified + 1 else verified), after)

end

structure SignaturePolicyEnvelope where
  rule : SignaturePolicy
  identities : List Bytes

/-- `NewPolicy` followed by `EvaluateSignedData`. -/
def evaluateSignedData (policy : SignaturePolicyEnvelope)
    (signatureSet : List SignedData) : Except String Unit := do
  compile policy.identities policy.rule
  let identities := signatureSetToValidIdentities msp signatureSet
  if (evaluate msp policy.identities identities policy.rule
      (List.replicate identities.length false)).1 then .ok ()
  else .error "signature set did not satisfy policy"

structure Consenter where
  id : ℕ
  mspId : GoString
  identity : Bytes

/-- `ComputeBFTQuorum`: the quotient is rounded up. -/
def computeBFTQuorum (totalNodes faultyNodes : ℕ) : ℕ := (totalNodes + faultyNodes + 1 + 1) / 2

def faultyNodes (totalNodes : ℕ) : ℕ := (totalNodes - 1) / 3

def consenterIdentity (consenter : Consenter) : Bytes :=
  marshalSerializedIdentity consenter.mspId consenter.identity

def encodeBFTBlockVerificationPolicy (consenters : List Consenter) : SignaturePolicyEnvelope where
  rule := .nOutOf (int32 (computeBFTQuorum consenters.length (faultyNodes consenters.length)))
    (consenters.zipIdx.map fun entry => .signedBy (int32 entry.2))
  identities := consenters.map consenterIdentity

def searchConsenterIdentityByID (consenters : List Consenter) (identifier : ℕ) : Bytes :=
  match consenters.find? fun consenter => consenter.id = identifier with
  | some consenter => consenterIdentity consenter
  | none => []

variable (headerBytes : BlockHeader → Bytes)

variable (bftEnabled : Bool)

variable (consenters : List Consenter)

/-- The body of the loop of `BlockSignatureVerifier`; an identifier outside the
consenter set gives nothing. -/
def signedDataOf (header : BlockHeader) (md : Metadata) (metadataSignature : MetadataSignature) :
    Except String (Option SignedData) :=
  if bftEnabled && metadataSignature.signatureHeader.length = 0 &&
      metadataSignature.identifierHeader.length > 0 then
    match unmarshalIdentifierHeader metadataSignature.identifierHeader with
    | .error _ =>
      .error ("failed unmarshalling identifier header for block " ++
        toString header.number ++ ": " ++ unmarshalText)
    | .ok identifierHeader =>
      let signerIdentity := searchConsenterIdentityByID consenters identifierHeader.identifier
      if signerIdentity.length = 0 then .ok none
      else
        .ok (some
          { identity := signerIdentity
            data := md.value ++ metadataSignature.identifierHeader ++ headerBytes header
            signature := metadataSignature.signature })
  else
    match unmarshalSignatureHeader metadataSignature.signatureHeader with
    | .error _ =>
      .error ("failed unmarshalling signature header for block " ++
        toString header.number ++ ": " ++ unmarshalText)
    | .ok signatureHeader =>
      .ok (some
        { identity := signatureHeader.creator
          data := md.value ++ metadataSignature.signatureHeader ++ headerBytes header
          signature := metadataSignature.signature })

/-- `BlockSignatureVerifier`, up to the call of the policy. -/
def signatureSetOf (header : BlockHeader) (metadata : List Bytes) :
    Except String (List SignedData) :=
  match metadata with
  | [] => .error "no signatures in block metadata"
  | signatures :: _ =>
    match unmarshalMetadata signatures with
    | .error _ =>
      .error ("error unmarshalling signatures from metadata: " ++
        unmarshalText ++ ": " ++ unmarshalText)
    | .ok md => do
        let signed ← md.signatures.mapM (signedDataOf headerBytes bftEnabled consenters header md)
        .ok (signed.filterMap id)

def blockSignatureVerifier (policy : SignaturePolicyEnvelope) (header : BlockHeader)
    (metadata : List Bytes) : Except String Unit := do
  let signatureSet ← signatureSetOf headerBytes bftEnabled consenters header metadata
  evaluateSignedData msp policy signatureSet

end FabricSequencer.Protoutil
