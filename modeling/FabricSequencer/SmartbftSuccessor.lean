import FabricSequencer.SmartbftProposal

/-!
# What an accepted proposal is

The checks of a follower fix the hash of the previous header, the data hash,
the indexes of the last config block and the transactions.  None of them reads
the number of the block, so a proposal of any number passes.
-/

namespace FabricSequencer.Smartbft

open ProtoWire Framing Protoutil Blockwriter Verifier List Option

theorem hexDigit_inj {m n : ℕ} (hm : m < 16) (hn : n < 16)
    (hdg : hexDigit m = hexDigit n) : m = n := by
  have hval := congrArg Fin.val hdg
  unfold hexDigit at hval
  split_ifs at hval <;> simp [Fin.ofNat] at hval <;> omega

theorem hexEncode_injective : Function.Injective hexEncode := by
  intro first
  induction first with
  | nil =>
    intro b hsm
    cases b with
    | nil => rfl
    | cons => simp [hexEncode] at hsm
  | cons byte _ ih =>
    intro b hsm
    cases b with
    | nil => simp [hexEncode] at hsm
    | cons other =>
      simp only [hexEncode, flatMap_cons, cons_append, nil_append, List.cons.injEq] at hsm
      obtain ⟨hhg, hl, hrs⟩ := hsm
      have hby := byte.isLt
      have ho := other.isLt
      have hd := hexDigit_inj (by omega) (by omega) hhg
      have hm := hexDigit_inj (Nat.mod_lt _ (by norm_num)) (Nat.mod_lt _ (by norm_num)) hl
      have heq : byte = other := Fin.ext (by omega)
      rw [heq, ih hrs]

/-! ## What the checks leave -/

def IsConfigTx (rawTx : Bytes) : Prop :=
  ∃ envelope, unmarshal rawTx = .ok envelope ∧ isConfigPayload envelope.payload = true

structure RecordsLastConfig (block : Block) (index : ℕ) : Prop where
  signatures : ∃ md ordererMetadata lastConfig, getMetadataFromBlock block 0 "SIGNATURES" = .ok md ∧
    unmarshalOrdererBlockMetadata md.value = .ok ordererMetadata ∧
    ordererMetadata.lastConfig = some lastConfig ∧ lastConfig.index = index
  lastConfig : ∃ md lastConfig, getMetadataFromBlock block 1 "LAST_CONFIG" = .ok md ∧
    unmarshalLastConfig md.value = .ok lastConfig ∧ lastConfig.index = index

/-- Everything a legal successor has besides its number. -/
structure Linked {codec : Codec} (v : Verifier) (rtc : RuntimeConfig codec)
    (block : Block) : Prop where
  previousHash : block.header.previousHash = blockHeaderHash codec rtc.lastBlock
  data_ne : block.data ≠ []
  dataHash : block.header.dataHash = computeBlockDataHash codec.sha256 block.data
  config : ∀ rawTx ∈ block.data, IsConfigTx rawTx → block.data = [rawTx]
  lastConfig : RecordsLastConfig block (expectedLastConfig rtc block)
  requests : ∀ rawTx ∈ block.data, ∃ info,
    v.verifyRequest codec rawTx (decide (block.data.length > 1)) = .ok info

structure LegalSuccessor {codec : Codec} (v : Verifier)
    (rtc : RuntimeConfig codec) (block : Block) : Prop
    extends Linked v rtc block where
  number : block.header.number = rtc.lastBlock.number + 1

variable {codec : Codec}

theorem verifyHashChain_ok {b : Block}
    {prevHeaderHash : GoString} (hchain : verifyHashChain codec b prevHeaderHash = .ok ()) :
    prevHeaderHash = hexEncode b.header.previousHash ∧
      b.header.dataHash = computeBlockDataHash codec.sha256 b.data := by
  unfold verifyHashChain at hchain
  split at hchain
  · cases hchain
  rename_i hprevious
  obtain ⟨_, hdata, hcmp⟩ := of_bind hchain
  obtain ⟨_, _, hhash⟩ := of_bind hdata
  cases hhash
  split at hcmp
  · cases hcmp
  next heq =>
    exact ⟨not_not.mp hprevious, hexEncode_injective (not_not.mp heq)⟩

variable {rtc : RuntimeConfig codec}

theorem verifyMetadata_ok
    {b : Block} {metadata : Bytes} (hmt : verifyMetadata rtc b metadata = .ok ()) :
    RecordsLastConfig b (expectedLastConfig rtc b) := by
  unfold verifyMetadata at hmt
  obtain ⟨md, hmd, hmt⟩ := of_bind hmt
  split at hmt
  · cases hmt
  rename_i ordererMetadata ho
  split at hmt
  · cases hmt
  split at hmt
  · cases hmt
  split at hmt
  · cases hmt
  split at hmt
  · cases hmt
  rename_i lastConfig hla
  split at hmt
  · cases hmt
  rename_i hi
  obtain ⟨raw, hr, hmt⟩ := of_bind hmt
  split at hmt
  · cases hmt
  rename_i lastConf hl
  split at hmt
  · cases hmt
  rename_i ht
  exact
    ⟨⟨md, ordererMetadata, lastConfig, hmd, ho, hla,
      not_not.mp hi⟩, ⟨raw, lastConf, hr, hl, not_not.mp ht⟩⟩

variable {rawTx : Bytes}

theorem unwrapReq_isConfigPayload {req : Request}
    (hn : unwrapReq rawTx = .ok req) {env : Envelope} (he : unmarshal rawTx = .ok env) :
    isConfigPayload env.payload = decide (req.chHdr.type = headerTypeConfig) := by
  simp only [unwrapReq, he] at hn
  unfold unwrapReqFromEnvelop at hn
  split at hn
  · cases hn
  rename_i pl hp
  split at hn
  · cases hn
  rename_i header hh
  split at hn
  · cases hn
  split at hn
  · cases hn
  split at hn
  · cases hn
  rename_i chHdr hch
  cases hn
  simp only [isConfigPayload, hp, hh, hch]

variable {v : Verifier}

theorem verifyRequest_type {info : RequestInfo} (hv : v.verifyRequest codec rawTx true = .ok info) :
    ∃ req, unwrapReq rawTx = .ok req ∧ req.chHdr.type = headerTypeEndorserTransaction := by
  unfold verifyRequest at hv
  obtain ⟨req, hn, hv⟩ := of_bind hv
  split at hv
  · cases hv
  split at hv
  · cases hv
  rename_i hty
  exact ⟨req, hn, by simpa using hty⟩

variable {infos : List RequestInfo}

theorem validateTransactions_ok {data : List Bytes}
    (hok : v.validateTransactions codec data = .ok infos) :
    ∀ rawTx ∈ data, ∃ info, v.verifyRequest codec rawTx (decide (data.length > 1)) = .ok info := by
  intro _ hm
  obtain ⟨r, -, hr⟩ := (Except.of_mapM hok).1 _ hm
  exact ⟨r, hr⟩

theorem config_alone {data : List Bytes}
    (hrq : ∀ rawTx ∈ data, ∃ info,
      v.verifyRequest codec rawTx (decide (data.length > 1)) = .ok info)
    (hm : rawTx ∈ data) (hc : IsConfigTx rawTx) :
    data = [rawTx] := by
  by_cases hs : data.length > 1
  · obtain ⟨_, hv⟩ := hrq rawTx hm
    rw [decide_eq_true hs] at hv
    obtain ⟨_, hn, hty⟩ := verifyRequest_type hv
    obtain ⟨_, he, hp⟩ := hc
    rw [unwrapReq_isConfigPayload hn he, hty] at hp
    cases hp
  · have hpos := length_pos_of_mem hm
    obtain ⟨_, hon⟩ := length_eq_one_iff.mp (by omega : data.length = 1)
    subst hon
    rw [mem_singleton.mp hm]

theorem verifyProposal_linked {proposal : Proposal}
    (ha : v.verifyProposal rtc proposal = .ok infos) :
    ∃ b, proposalToBlock codec proposal = .ok b ∧ Linked v rtc b := by
  unfold verifyProposal at ha
  obtain ⟨b, hb, ha⟩ := of_bind ha
  obtain ⟨_, hch, ha⟩ := of_bind ha
  obtain ⟨requests, hrq, _⟩ := of_bind ha
  obtain ⟨hpr, hdt⟩ := verifyHashChain_ok hch
  unfold verifyBlockDataAndMetadata at hrq
  split at hrq
  · cases hrq
  rename_i hne
  split at hrq
  · cases hrq
  obtain ⟨_, hmt, hok⟩ := of_bind hrq
  have hl := validateTransactions_ok hok
  refine ⟨b, hb, ?_⟩
  constructor
  case previousHash =>
    rw [rtc.hash_eq] at hpr
    exact (hexEncode_injective hpr).symm
  case data_ne =>
    intro hn
    exact hne (by rw [hn]; rfl)
  case dataHash => exact hdt
  case config =>
    intro _ hm hc
    exact config_alone hl hm hc
  case lastConfig => exact verifyMetadata_ok hmt
  case requests => exact hl

/-- An accepted proposal has everything a legal successor of the follower's
last block has, and is one exactly when its number is the next. -/
theorem accepted_is_successor_iff {codec : Codec} (v : Verifier)
    (rtc : RuntimeConfig codec) (proposal : Proposal) (infos : List RequestInfo)
    (haccept : v.verifyProposal rtc proposal = .ok infos) :
    ∃ block, proposalToBlock codec proposal = .ok block ∧ Linked v rtc block ∧
      (LegalSuccessor v rtc block ↔ block.header.number = rtc.lastBlock.number + 1) := by
  obtain ⟨block, hblk, hlnk⟩ := verifyProposal_linked haccept
  refine ⟨block, hblk, hlnk, ?_⟩
  constructor
  · intro hlg
    exact hlg.number
  · intro hnum
    exact ⟨hlnk, hnum⟩

def mark (bytes : Bytes) : Bytes := bytes.flatMap (fun byte => [1, byte]) ++ [0]

def unmark : Bytes → Option (Bytes × Bytes)
  | [] => none
  | [head] => if head = 0 then some ([], []) else none
  | head :: byte :: rest =>
    if head = 0 then some ([], byte :: rest)
    else (unmark rest).map fun result => (byte :: result.1, result.2)

theorem unmark_mark (bytes tl : Bytes) : unmark (mark bytes ++ tl) = some (bytes, tl) := by
  induction bytes with
  | nil => cases tl <;> simp [mark, unmark]
  | cons byte bytes ih =>
    have hcn : mark (byte :: bytes) ++ tl = 1 :: byte :: (mark bytes ++ tl) := by
      simp [mark]
    rw [hcn, unmark, if_neg (by decide), ih]
    rfl

/-- A stand-in for ASN.1 with numbers in unary. -/
def sampleCodec : Codec where
  marshalHeader header :=
    (if header.number < 0 then 1 else 0) ::
      (mark (List.replicate header.number.natAbs 0) ++
        (mark header.previousHash ++ (mark header.dataHash ++ [])))
  unmarshalHeader input :=
    match input with
    | [] => none
    | sign :: rest => do
        let (number, rest) ← unmark rest
        let (previousHash, rest) ← unmark rest
        let (dataHash, _) ← unmark rest
        some
          { number := if sign = 1 then -number.length else number.length
            previousHash := previousHash
            dataHash := dataHash }
  unmarshal_marshalHeader header := by
    simp only [unmark_mark, bind_eq_bind, bind_some, length_replicate]
    obtain ⟨number, previousHash, dataHash⟩ := header
    by_cases hneg : number < 0
    · simp only [hneg, if_true, Option.some.injEq, Asn1Header.mk.injEq, and_true]
      omega
    · simp only [hneg, if_false, Fin.isValue, zero_ne_one, Option.some.injEq,
        Asn1Header.mk.injEq, and_true]
      omega
  marshalHeader_ne header := by simp
  marshalTuple first second := mark first ++ (mark second ++ [])
  unmarshalTuple input := do
    let (first, rest) ← unmark input
    let (second, _) ← unmark rest
    some (first, second)
  unmarshal_marshalTuple first second := by
    simp only [unmark_mark, bind_eq_bind, bind_some]
  marshalTuple_ne first second := by simp [mark]
  sha256 := id

def sampleRequest : Bytes :=
  marshal
    ⟨appendBytesField 1
      (appendBytesField 1 ([8, 3] ++ appendBytesField 4 [99]) ++
        appendBytesField 2 (appendBytesField 1 [5])), [7], []⟩

def sampleVerifier : Verifier where
  channel := [99]
  accessController _ := .ok ()
  validateConfig _ := .ok ()
  validateCreator _ := .ok ()
  lastUpdate _ := .ok none
  verificationSequence := 0

def sampleConfig : RuntimeConfig sampleCodec where
  lastCommittedBlockHash := hexEncode (blockHeaderHash sampleCodec ⟨4, [], []⟩)
  lastBlock := ⟨4, [], []⟩
  lastConfigBlock := 2
  lastConfigBlock_lt := by norm_num
  hash_eq := rfl

def sampleProposal (number : ℕ) : Proposal where
  header := blockHeaderBytes sampleCodec
    ⟨number, blockHeaderHash sampleCodec ⟨4, [], []⟩,
      computeBlockDataHash sampleCodec.sha256 [sampleRequest]⟩
  payload := sampleCodec.marshalTuple (marshalRepeated [sampleRequest])
    (marshalRepeated (assembleBlock sampleConfig [] [sampleRequest]).metadata)
  metadata := []
  verificationSequence := 0

theorem accepted_sample_is_successor :
    ∃ infos block, sampleVerifier.verifyProposal sampleConfig (sampleProposal 5) = .ok infos ∧
      proposalToBlock sampleCodec (sampleProposal 5) = .ok block ∧
      Linked sampleVerifier sampleConfig block ∧
      (LegalSuccessor sampleVerifier sampleConfig block ↔
        block.header.number = sampleConfig.lastBlock.number + 1) := by
  have hsm : (sampleVerifier.verifyProposal sampleConfig
      (sampleProposal 5)).toOption.isSome = true := by
    decide +kernel
  obtain ⟨infos, hin⟩ := isSome_iff_exists.mp hsm
  have hacc := Except.eq_ok_of_toOption hin
  obtain ⟨block, hblk⟩ := accepted_is_successor_iff sampleVerifier
    sampleConfig (sampleProposal 5) infos hacc
  exact ⟨infos, block, hacc, hblk⟩

/-- After block 4 the follower accepts a proposal for block 9. -/
theorem skipping_proposal_is_accepted :
    (sampleVerifier.verifyProposal sampleConfig (sampleProposal 9)).toOption.isSome = true ∧
    (proposalToBlock sampleCodec (sampleProposal 9)).toOption.map
      (fun block => block.header.number) = some 9 := by
  decide +kernel

end FabricSequencer.Smartbft
