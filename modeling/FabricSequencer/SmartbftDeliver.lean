import FabricSequencer.BlockQuorum
import FabricSequencer.SmartbftAssembler

/-!
# Signatures of a delivered block

A consenter signs the orderer metadata, its identifier header and the block
header, each as bytes of its own choice.  `VerifyConsenterSig` compares the
metadata as messages and the header with that of the proposal.  `Deliver`
stores one copy of the metadata, that of the first signature, for all of them,
and the verifier of the block encodes the header anew.
-/

namespace FabricSequencer.Smartbft

open ProtoWire Framing Protoutil Blockwriter Verifier List

/-- `Signature`, the message of a consenter. -/
structure ConsenterSignature where
  identifierHeader : Bytes
  blockHeader : Bytes
  ordererBlockMetadata : Bytes
deriving DecidableEq

structure Signature where
  id : ℕ
  value : Bytes
  msg : Bytes

def LastConfig.equal (first second : LastConfig) : Bool :=
  first.index = second.index && equalUnknown first.unknownFields second.unknownFields

def OrdererBlockMetadata.equal (first second : OrdererBlockMetadata) : Bool :=
  (match first.lastConfig, second.lastConfig with
    | none, none => true
    | some one, some other => one.equal other
    | _, _ => false) &&
  first.consenterMetadata = second.consenterMetadata &&
  equalUnknown first.unknownFields second.unknownFields

/-- The consenters as the verifier of blocks and that of signatures know them.
Sanitizing an identity leaves the identity it stands for. -/
structure ConsenterSet {Identity : Type} (msp : Msp Identity) where
  consenters : List Consenter
  id2Identities : ℕ → Option Bytes
  identity_eq : ∀ id identity, id2Identities id = some identity →
    searchConsenterIdentityByID consenters id ≠ [] ∧
      msp.deserialize (searchConsenterIdentityByID consenters id) = msp.deserialize identity

/-- The policy for consenters, which takes valid signatures only. -/
structure ConsenterVerifier {Identity : Type} (msp : Msp Identity) where
  evaluate : SignedData → Except String Unit
  sound : ∀ sd, evaluate sd = .ok () → ∃ identity,
    msp.deserialize sd.identity = some identity ∧ msp.verify identity sd.data sd.signature = true

variable {Identity : Type} {msp : Msp Identity} (codec : Codec)
  (unmarshalSignature : Bytes → Option ConsenterSignature)

def verifySignatureIsBoundToProposal (sig : ConsenterSignature)
    (identityID : ℕ) (prop : Proposal) : Except String Unit :=
  if prop.header ≠ sig.blockHeader then .error "mismatched block header"
  else
    match unmarshalIdentifierHeader sig.identifierHeader with
    | .error _ => .error ("malformed signature header: " ++ unmarshalText)
    | .ok sigHdr =>
      if identityID ≠ sigHdr.identifier then
        .error "identity in signature header does not match expected identity"
      else
        match unmarshalOrdererBlockMetadata sig.ordererBlockMetadata with
        | .error _ => .error ("malformed orderer metadata in signature: " ++ unmarshalText)
        | .ok ordererMD =>
          if ordererMD.consenterMetadata ≠ prop.metadata then
            .error ("consenter metadata in OrdererBlockMetadata " ++ "doesn't match proposal")
          else do
            let block ← proposalToBlock codec prop
            if block.metadata.length ≠ metadataSlots then
              .error ("block metadata is of size " ++ toString block.metadata.length ++
                " but should be of size " ++ toString metadataSlots)
            else
              match unmarshalMetadata (block.metadata.headD []) with
              | .error _ => .error ("malformed signature metadata: " ++ unmarshalText)
              | .ok signatureMetadata =>
                match unmarshalOrdererBlockMetadata signatureMetadata.value with
                | .error _ => .error ("malformed orderer metadata in block: " ++ unmarshalText)
                | .ok ordererMDFromBlock =>
                  if ordererMDFromBlock.equal ordererMD then .ok ()
                  else
                    .error ("signature's OrdererBlockMetadata and " ++
                      "OrdererBlockMetadata extracted from block " ++
                      "do not match")

def verifyConsenterSig (set : ConsenterSet msp) (cv : ConsenterVerifier msp)
    (signature : Signature) (prop : Proposal) : Except String Unit :=
  match set.id2Identities signature.id with
  | none => .error ("node with id of " ++ toString signature.id ++ " doesn't exist")
  | some identity =>
    match unmarshalSignature signature.msg with
    | none => .error ("malformed signature format: " ++ asn1Text)
    | some sig => do
        verifySignatureIsBoundToProposal codec sig signature.id prop
        cv.evaluate
          { identity := identity
            data := sig.ordererBlockMetadata ++ sig.identifierHeader ++ sig.blockHeader
            signature := signature.value }

def marshalMetadataSignature (signature : MetadataSignature) : Bytes :=
  appendBytesField 1 signature.signatureHeader ++ appendBytesField 2 signature.signature ++
    appendBytesField 3 signature.identifierHeader

def marshalMetadata (md : Metadata) : Bytes :=
  appendBytesField 1 md.value ++ md.signatures.flatMap fun signature =>
      appendVarint 18 ++ appendBytes (marshalMetadataSignature signature)

/-- The metadata `Deliver` stores: the value is that of the first signature. -/
def deliveredMetadata (decoded : List (Signature × ConsenterSignature)) : Metadata where
  value := (decoded.head?.map fun entry => entry.2.ordererBlockMetadata).getD []
  signatures := decoded.map fun entry =>
    { signature := entry.1.value
      identifierHeader := entry.2.identifierHeader }

/-- `Deliver`, up to the block it writes; a signature that does not decode
halts the chain. -/
def deliver (proposal : Proposal) (signatures : List Signature) : Outcome (Option Block) :=
  match proposalToBlock codec proposal with
  | .error err => .error (.panic ("failed to read proposal, err: " ++ err))
  | .ok block =>
    match signatures.mapM fun s =>
      (unmarshalSignature s.msg).map fun sig => (s, sig) with
    | none => .ok none
    | some decoded =>
      if block.metadata.length = 0 then
        .error (.panic "index out of range [0] with length 0")
      else
        .ok (some
          { block with
            metadata := block.metadata.set 0 (marshalMetadata (deliveredMetadata decoded)) })

/-- The verifier of blocks takes this stored signature as valid. -/
def Accepted (set : ConsenterSet msp) (header : BlockHeader) (md : Metadata)
    (stored : MetadataSignature) : Prop :=
  ∃ sd identity,
    signedDataOf (blockHeaderBytes codec) true set.consenters header md stored = .ok (some sd) ∧
    msp.deserialize sd.identity = some identity ∧
    msp.verify identity sd.data sd.signature = true

/-- The bytes that were signed are those the verifier of blocks puts together,
and the identifier header is there for it to see. -/
def SignedAsStored (proposal : Proposal) (header : BlockHeader)
    (value : Bytes) (sig : ConsenterSignature) : Prop :=
  sig.identifierHeader ≠ [] ∧
    value ++ sig.identifierHeader ++ blockHeaderBytes codec header =
      sig.ordererBlockMetadata ++ sig.identifierHeader ++ proposal.header

variable {signature identifierHeader : Bytes}

theorem marshalMetadataSignature_parses
    (hg : signature.length < 2 ^ 62) (hh : identifierHeader.length < 2 ^ 62) :
    ∃ fs, Parses (marshalMetadataSignature
        { signature := signature, identifierHeader := identifierHeader })
        fs ∧
      fs.foldl MetadataSignature.set {} =
        { signature := signature, identifierHeader := identifierHeader } := by
  obtain ⟨first, hf, hn⟩ := appendBytesField_parses 2 (by norm_num)
    (by decide) (by decide) (by omega : signature.length < 2 ^ 64)
  obtain ⟨b, hs, ht⟩ := appendBytesField_parses 3 (by norm_num)
    (by decide) (by decide) (by omega : identifierHeader.length < 2 ^ 64)
  refine ⟨first ++ b, ?_, ?_⟩
  · simpa [marshalMetadataSignature, appendBytesField_nil] using hf.append hs
  · rcases hn with ⟨rfl, rfl⟩ | ⟨one, rfl, hont, hon⟩ <;>
      rcases ht with ⟨rfl, rfl⟩ | ⟨_, rfl, _, _⟩ <;>
      simp_all [MetadataSignature.set]

theorem marshalMetadataSignature_length
    (hs : signature.length < 2 ^ 62) (hh : identifierHeader.length < 2 ^ 62) :
    (marshalMetadataSignature
      { signature := signature
        identifierHeader := identifierHeader }).length < 2 ^ 64 := by
  have hf := appendBytesField_length_le 2 signature
  have hn := appendBytesField_length_le 3 identifierHeader
  simp only [marshalMetadataSignature, appendBytesField_nil, nil_append, length_append]
  omega

theorem marshalSignatures_parses {sd : List MetadataSignature}
    (hstr : ∀ entry ∈ sd, entry.signatureHeader = [] ∧ entry.signature.length < 2 ^ 62 ∧
      entry.identifierHeader.length < 2 ^ 62) (md : Metadata) :
    ∃ fs, Parses (sd.flatMap fun signature =>
        appendVarint 18 ++ appendBytes (marshalMetadataSignature signature))
        fs ∧
      fs.foldlM Metadata.set md = .ok { md with signatures := md.signatures ++ sd } := by
  induction sd generalizing md with
  | nil => exact ⟨[], .nil, by simp [pure, Except.pure]⟩
  | cons entry _ ih =>
    obtain ⟨hnil, hsig, hhdr⟩ := hstr entry mem_cons_self
    have hent : entry = { signature := entry.signature
                          identifierHeader := entry.identifierHeader } := by
      rw [← hnil]
    obtain ⟨_, hnst, hfo⟩ := marshalMetadataSignature_parses hsig hhdr
    rw [← hent] at hnst hfo
    have hlen := marshalMetadataSignature_length hsig hhdr
    rw [← hent] at hlen
    obtain ⟨fd, htag, hcn, hfl⟩ := Parses.bytesField 18 (by norm_num) (by decide) (by decide) hlen
    obtain ⟨fs, hpa, hrs⟩ := ih (fun other hoth => hstr other (mem_cons_of_mem _ hoth))
      { md with signatures := md.signatures ++ [entry] }
    refine ⟨fd :: fs, ?_, ?_⟩
    · simpa using hfl.append hpa
    have hset : Metadata.set md fd = .ok { md with signatures := md.signatures ++ [entry] } := by
      unfold Metadata.set
      rw [htag, if_neg (by decide), if_pos rfl, hcn, fieldsOf_eq_ok_iff.mpr hnst]
      simp only [bind, Except.bind, hfo]
    rw [foldlM_cons, hset]
    simpa [bind, Except.bind] using hrs

theorem unmarshalMetadata_marshalMetadata {md : Metadata} (hval : md.value.length < 2 ^ 62)
    (hr : ∀ entry ∈ md.signatures, entry.signatureHeader = [] ∧ entry.signature.length < 2 ^ 62 ∧
      entry.identifierHeader.length < 2 ^ 62) :
    unmarshalMetadata (marshalMetadata md) = .ok md := by
  obtain ⟨first, hf, hcs⟩ := appendBytesField_parses 1 (by norm_num)
    (by decide) (by decide) (by omega : md.value.length < 2 ^ 64)
  obtain ⟨_, hpa, hfl⟩ := marshalSignatures_parses hr { value := md.value }
  have hs : first.foldlM Metadata.set {} =
      (.ok { value := md.value } : Except WireError Metadata) := by
    rcases hcs with ⟨hn, rfl⟩ | ⟨_, rfl, ht, hcn⟩
    · rw [hn]
      rfl
    · simp only [foldlM_cons, foldlM_nil, Metadata.set, ht, hcn]
      rfl
  unfold unmarshalMetadata marshalMetadata
  rw [fieldsOf_eq_ok_iff.mpr (hf.append hpa)]
  simp only [bind, Except.bind, foldlM_append, hs]
  simpa [bind, Except.bind] using hfl

/-! ## What a verified signature says -/

variable {cv : ConsenterVerifier msp} {set : ConsenterSet msp} {signature : Signature}

theorem verifyConsenterSig_spec {prop : Proposal}
    (hv : verifyConsenterSig codec unmarshalSignature set cv signature prop = .ok ()) :
    ∃ sig header identity, unmarshalSignature signature.msg = some sig ∧
      sig.blockHeader = prop.header ∧
      unmarshalIdentifierHeader sig.identifierHeader = .ok header ∧
      header.identifier = signature.id ∧
      searchConsenterIdentityByID set.consenters signature.id ≠ [] ∧
      msp.deserialize (searchConsenterIdentityByID set.consenters signature.id) = some identity ∧
      msp.verify identity (sig.ordererBlockMetadata ++ sig.identifierHeader ++
        prop.header) signature.value = true := by
  unfold verifyConsenterSig at hv
  split at hv
  · cases hv
  rename_i sd ht
  split at hv
  · cases hv
  rename_i sig hs
  obtain ⟨_, hbn, hev⟩ := of_bind hv
  unfold verifySignatureIsBoundToProposal at hbn
  split at hbn
  · cases hbn
  rename_i hh
  split at hbn
  · cases hbn
  rename_i header hin
  split at hbn
  · cases hbn
  rename_i hid
  obtain ⟨identity, hd, hok⟩ := cv.sound _ hev
  obtain ⟨hne, heq⟩ := set.identity_eq _ _ ht
  have hb : sig.blockHeader = prop.header := (not_not.mp hh).symm
  rw [hb] at hok
  exact ⟨sig, header, identity, hs, hb, hin, (not_not.mp hid).symm, hne, heq.trans hd, hok⟩

theorem accepted_iff_signedAsStored
    (hone : ∀ (identity : Identity) (first b value : Bytes),
      msp.verify identity first value = true →
      msp.verify identity b value = true → first = b)
    {prop : Proposal} {sig : ConsenterSignature}
    (hv : verifyConsenterSig codec unmarshalSignature set cv signature prop = .ok ())
    (hs : unmarshalSignature signature.msg = some sig)
    (hc : msp.deserialize [] = none) (header : BlockHeader) (md : Metadata) :
    Accepted codec set header md
        { signature := signature.value
          identifierHeader := sig.identifierHeader } ↔
      SignedAsStored codec prop header md.value sig := by
  obtain ⟨_, idHeader, identity, hg, _, hin, hid, hne, hd, hok⟩ :=
    verifyConsenterSig_spec codec unmarshalSignature hv
  rw [hs] at hg
  cases hg
  unfold Accepted SignedAsStored
  by_cases hn : sig.identifierHeader = []
  · -- the verifier falls back to the creator of an empty signature header
    constructor
    · rintro ⟨sd, _, hdt, ho, _⟩
      rw [hn] at hdt
      have hcr : sd.identity = [] := by
        cases hdt
        rfl
      rw [hcr, hc] at ho
      cases ho
    · rintro ⟨hpr, _⟩
      exact absurd hn hpr
  · have hdt : signedDataOf (blockHeaderBytes codec) true set.consenters header md
        { signature := signature.value
          identifierHeader := sig.identifierHeader } =
        .ok (some
          { identity := searchConsenterIdentityByID set.consenters signature.id
            data := md.value ++ sig.identifierHeader ++ blockHeaderBytes codec header
            signature := signature.value }) := by
      have hp : sig.identifierHeader.length > 0 := length_pos_iff.mpr hn
      have hl : (searchConsenterIdentityByID set.consenters idHeader.identifier).length ≠ 0 := by
        rw [hid]
        simpa using hne
      unfold signedDataOf
      simp only [length_nil, decide_true, Bool.true_and, hp, if_true, hin]
      rw [if_neg hl, hid]
    constructor
    · rintro ⟨_, _, hsd, ho, ht⟩
      rw [hdt] at hsd
      cases hsd
      rw [hd] at ho
      cases ho
      exact ⟨hn, hone identity _ _ _ ht hok⟩
    · rintro ⟨_, heq⟩
      refine ⟨_, identity, hdt, hd, ?_⟩
      rw [← heq] at hok
      exact hok

theorem mapM_unmarshalSignature {signatures : List Signature}
    (hd : ∀ s ∈ signatures, ∃ sig, unmarshalSignature s.msg = some sig) :
    ∃ dc, (signatures.mapM fun s =>
        (unmarshalSignature s.msg).map fun sig => (s, sig)) = some dc ∧
      dc.map Prod.fst = signatures ∧
      ∀ entry ∈ dc, unmarshalSignature entry.1.msg = some entry.2 := by
  induction signatures with
  | nil => exact ⟨[], rfl, rfl, by simp⟩
  | cons s _ ih =>
    obtain ⟨sig, hs⟩ := hd s mem_cons_self
    obtain ⟨dc, hc, heq, ha⟩ := ih fun other ho => hd other (mem_cons_of_mem _ ho)
    refine ⟨(s, sig) :: dc, ?_, by simp [heq], ?_⟩
    · rw [mapM_cons, hs, hc]
      rfl
    · intro entry he
      rcases mem_cons.mp he with rfl | hlat
      · exact hs
      · exact ha entry hlat

theorem verifyProposal_slots {codec : Codec} {v : Verifier}
    {rtc : RuntimeConfig codec} {proposal : Proposal} {infos : List RequestInfo}
    (ha : v.verifyProposal rtc proposal = .ok infos) :
    ∃ block, proposalToBlock codec proposal = .ok block ∧ block.metadata.length ≠ 0 := by
  obtain ⟨block, hb, ha⟩ := of_bind ha
  obtain ⟨_, _, ha⟩ := of_bind ha
  obtain ⟨_, hc, _⟩ := of_bind ha
  refine ⟨block, hb, ?_⟩
  unfold verifyBlockDataAndMetadata at hc
  split at hc
  · cases hc
  split at hc
  · cases hc
  rename_i hf
  unfold metadataSlots at hf
  omega

theorem unmarshal_deliveredMetadata {dc : List (Signature × ConsenterSignature)}
    (hsz : ∀ entry ∈ dc, entry.1.value.length < 2 ^ 62 ∧ entry.2.identifierHeader.length < 2 ^ 62 ∧
      entry.2.ordererBlockMetadata.length < 2 ^ 62) :
    unmarshalMetadata (marshalMetadata (deliveredMetadata dc)) = .ok (deliveredMetadata dc) := by
  apply unmarshalMetadata_marshalMetadata
  · cases dc with
    | nil => norm_num [deliveredMetadata]
    | cons entry => exact (hsz entry mem_cons_self).2.2
  · intro _ hm
    obtain ⟨entry, he, rfl⟩ := mem_map.mp hm
    have hsi := hsz entry he
    exact ⟨rfl, hsi.1, hsi.2.1⟩

/-- A signature is the signed bytes, and the empty string is no identity. -/
def sampleSigners : Msp Bytes :=
  { Protoutil.sampleMsp with deserialize := fun bytes => if bytes = [] then none else some bytes }

def sampleConsenters : List Consenter := [⟨1, [], [1]⟩, ⟨2, [], [2]⟩, ⟨3, [], [3]⟩, ⟨4, [], [4]⟩]

def sampleSet : ConsenterSet sampleSigners where
  consenters := sampleConsenters
  id2Identities id :=
    if searchConsenterIdentityByID sampleConsenters id = [] then none
    else some (searchConsenterIdentityByID sampleConsenters id)
  identity_eq id identity hidentity := by
    split_ifs at hidentity with hempty
    cases hidentity
    exact ⟨hempty, rfl⟩

def samplePolicy : ConsenterVerifier sampleSigners where
  evaluate sd :=
    if sd.identity ≠ [] ∧ sd.data = sd.signature then .ok ()
    else .error "signature set did not satisfy policy"
  sound sd hevaluate := by
    split_ifs at hevaluate with hvalid
    exact ⟨sd.identity, if_neg hvalid.1, decide_eq_true hvalid.2⟩

def unmarkSignature (input : Bytes) : Option ConsenterSignature := do
  let (identifierHeader, rest) ← unmark input
  let (blockHeader, rest) ← unmark rest
  let (ordererBlockMetadata, _) ← unmark rest
  some ⟨identifierHeader, blockHeader, ordererBlockMetadata⟩

def deliveredProposal : Proposal :=
  blockProposal sampleCodec (assembleBlock sampleConfig [8, 1] [sampleRequest]) [8, 1] 0

def sampleSignature (id : Byte) (ordererBlockMetadata : Bytes) : Signature where
  id := id.val
  value := ordererBlockMetadata ++ [8, id] ++ deliveredProposal.header
  msg := mark [8, id] ++ (mark deliveredProposal.header ++ (mark ordererBlockMetadata ++ []))

/-- The orderer metadata of the proposal, and the same message with its two
fields in the other order. -/
def honestMetadata : Bytes := marshalOrdererBlockMetadata 2 [8, 1]

def reorderedMetadata : Bytes :=
  appendBytesField 2 [8, 1] ++ (appendVarint 10 ++ appendBytes (marshalLastConfig 2))

def honestSignatures : List Signature := [2, 3, 4].map (sampleSignature · honestMetadata)

end FabricSequencer.Smartbft
