import FabricSequencer.SmartbftSuccessor

/-!
# The proposal of an honest leader

The leader and the follower agree on every field of an assembled block.  What
decides is the form of the raw requests: the check of a request decodes it,
while the data hash of a block also asks that the transactions are encoded the
way the library would encode them and carry a signature.
-/

namespace FabricSequencer.Smartbft

open ProtoWire Framing Protoutil Blockwriter Verifier List

theorem marshalRepeated_parses {items : List Bytes} (hsz : ∀ it ∈ items, it.length < 2 ^ 64) :
    ∃ fs, Parses (marshalRepeated items) fs ∧
      (fs.filter fun fd => fd.tag = 10).map Field.content =
        items := by
  induction items with
  | nil => exact ⟨[], .nil, rfl⟩
  | cons it _ ih =>
    obtain ⟨fs, hf, hc⟩ := ih fun other ho => hsz other (mem_cons_of_mem _ ho)
    obtain ⟨fd, ht, hcn, hpa⟩ := Parses.bytesField 10 (by norm_num) (by decide) (by decide)
      (hsz it mem_cons_self)
    refine ⟨fd :: fs, ?_, ?_⟩
    · have hbo := hpa.append hf
      simpa [marshalRepeated] using hbo
    · simp [ht, hcn, hc]

theorem unmarshalRepeated_marshalRepeated {items : List Bytes}
    (hsz : ∀ it ∈ items, it.length < 2 ^ 64) :
    unmarshalRepeated (marshalRepeated items) = .ok items := by
  obtain ⟨_, hpa, hcn⟩ := marshalRepeated_parses hsz
  unfold unmarshalRepeated
  rw [fieldsOf_eq_ok_iff.mpr hpa]
  exact congrArg Except.ok hcn

variable {value : Bytes}

theorem appendBytesField_parses (num : ℕ) (ht : num * 8 + 2 < 2 ^ 64)
    (hok : validTag (num * 8 + 2) = true) (hwr : wireTypeOf (num * 8 + 2) = .bytes)
    (hval : value.length < 2 ^ 64) :
    ∃ fs, Parses (appendBytesField num value) fs ∧
      ((value = [] ∧ fs = []) ∨ ∃ fd, fs = [fd] ∧ fd.tag = num * 8 + 2 ∧ fd.content = value) := by
  by_cases hn : value = []
  · subst hn
    exact ⟨[], .nil, .inl ⟨rfl, rfl⟩⟩
  · obtain ⟨fd, heq, hcn, hpa⟩ := Parses.bytesField _ ht hok hwr hval
    rw [appendBytesField_of_ne_nil hn]
    exact ⟨[fd], hpa, .inr ⟨fd, rfl, heq, hcn⟩⟩

theorem unmarshalMetadata_value (hval : value.length < 2 ^ 64) :
    unmarshalMetadata (marshalMetadataValue value) = .ok { value := value } := by
  obtain ⟨_, hpa, hcs⟩ := appendBytesField_parses 1 (by norm_num) (by decide) (by decide) hval
  unfold unmarshalMetadata marshalMetadataValue
  rw [fieldsOf_eq_ok_iff.mpr hpa]
  rcases hcs with ⟨rfl, rfl⟩ | ⟨_, rfl, ht, hcn⟩
  · rfl
  · simp only [bind, Except.bind, foldlM_cons, foldlM_nil, Metadata.set, ht, hcn]
    rfl

variable {index : ℕ}

theorem marshalLastConfig_parses (hi : index < 2 ^ 64) :
    ∃ fs, Parses (marshalLastConfig index) fs ∧
      fs.foldl LastConfig.set {} = { index := index } := by
  unfold marshalLastConfig appendVarintField
  split_ifs with hzero
  · subst hzero
    exact ⟨[], .nil, rfl⟩
  · obtain ⟨fd, ht, hs, hpa⟩ := Parses.varintField 8 (by norm_num) (by decide) (by decide) hi
    refine ⟨[fd], hpa, ?_⟩
    simp [LastConfig.set, ht, hs, uint64_of_lt hi]

theorem unmarshalLastConfig_marshal (hi : index < 2 ^ 64) :
    unmarshalLastConfig (marshalLastConfig index) = .ok { index := index } := by
  obtain ⟨_, hpa, hfl⟩ := marshalLastConfig_parses hi
  unfold unmarshalLastConfig
  rw [fieldsOf_eq_ok_iff.mpr hpa]
  exact congrArg Except.ok hfl

theorem marshalLastConfig_length (index : ℕ) : (marshalLastConfig index).length ≤ 20 := by
  have ht := appendVarint_length_le (1 * 8)
  have hval := appendVarint_length_le index
  unfold marshalLastConfig appendVarintField
  split_ifs
  · simp
  · rw [length_append]
    omega

theorem marshalOrdererBlockMetadata_length (index : ℕ) (md : Bytes) :
    (marshalOrdererBlockMetadata index md).length ≤ md.length + 60 := by
  have hla := marshalLastConfig_length index
  have hf := appendVarint_length_le 10
  have hsz := appendVarint_length_le (marshalLastConfig index).length
  have hs := appendBytesField_length_le 2 md
  unfold marshalOrdererBlockMetadata appendBytes
  simp only [length_append]
  omega

variable {metadata md : Bytes}

theorem unmarshalOrdererBlockMetadata_marshal (hi : index < 2 ^ 64) (hmt : md.length < 2 ^ 64) :
    unmarshalOrdererBlockMetadata (marshalOrdererBlockMetadata index md) =
      .ok
        { lastConfig := some { index := index }
          consenterMetadata := md } := by
  have hl := marshalLastConfig_length index
  obtain ⟨_, hn, hfl⟩ := marshalLastConfig_parses hi
  obtain ⟨first, ht, hcn, hf⟩ := Parses.bytesField 10 (by norm_num) (by decide) (by decide)
    (by omega : (marshalLastConfig index).length < 2 ^ 64)
  obtain ⟨_, hpa, hcs⟩ := appendBytesField_parses 2 (by norm_num) (by decide) (by decide) hmt
  have hs : OrdererBlockMetadata.set {} first = .ok { lastConfig := some { index := index } } := by
    simp only [OrdererBlockMetadata.set,
      ht, hcn, if_true, fieldsOf_eq_ok_iff.mpr hn, bind, Except.bind, Option.getD_none, hfl]
  unfold unmarshalOrdererBlockMetadata marshalOrdererBlockMetadata
  rw [fieldsOf_eq_ok_iff.mpr (hf.append hpa)]
  simp only [bind, Except.bind, cons_append, nil_append, foldlM_cons, hs]
  rcases hcs with ⟨rfl, rfl⟩ | ⟨_, rfl, heq, hval⟩
  · rfl
  · simp only [foldlM_cons, foldlM_nil, OrdererBlockMetadata.set, heq, hval]
    rfl

theorem uint64OfInt_int64 (n : ℕ) : uint64OfInt (int64 n) = uint64 n := by
  unfold uint64OfInt int64 uint64
  split_ifs <;> omega

theorem equalUnknown_refl (fs : List Field) : equalUnknown fs fs = true := by
  simp [equalUnknown]

theorem ViewMetadata.equal_refl (md : ViewMetadata) : md.equal md = true := by
  simp [ViewMetadata.equal, equalUnknown_refl]

/-! ## The batch -/

variable {codec : Codec} {v : Verifier} {rawTx : Bytes}

theorem verifyRequest_unwrap
    {info : RequestInfo} (hv : v.verifyRequest codec rawTx false = .ok info) :
    ∃ req, unwrapReq rawTx = .ok req ∧
      (req.chHdr.type = headerTypeConfig ∨
        (req.chHdr.type = headerTypeEndorserTransaction ∧
          v.verifyRequest codec rawTx true = .ok info)) := by
  have hwh := hv
  unfold verifyRequest at hv
  obtain ⟨req, hn, hv⟩ := of_bind hv
  refine ⟨req, hn, ?_⟩
  by_cases hc : req.chHdr.type = headerTypeConfig
  · exact .inl hc
  right
  have hty : req.chHdr.type = headerTypeEndorserTransaction := by
    by_contra ho
    split at hv
    · cases hv
    rw [if_neg (by simp)] at hv
    split at hv
    · cases hv
    split at hv
    · cases hv
    rw [if_pos ⟨hc, ho⟩] at hv
    cases hv
  refine ⟨hty, ?_⟩
  unfold verifyRequest at hwh ⊢
  rw [hn] at hwh ⊢
  simpa [bind, Except.bind, hty] using hwh

theorem unwrapReq_envelope {req : Request} (hn : unwrapReq rawTx = .ok req) :
    ∃ envelope, unmarshal rawTx = .ok envelope := by
  unfold unwrapReq at hn
  split at hn
  · cases hn
  · exact ⟨_, ‹_›⟩

variable {envelope : Envelope}

theorem isConfigTransaction_of_config (hc : isConfigPayload envelope.payload = true) :
    isConfigTransaction envelope = true := by
  unfold isConfigPayload at hc
  split at hc
  · cases hc
  rename_i pl hp
  split at hc
  · cases hc
  rename_i header hh
  split at hc
  · cases hc
  rename_i chdr hch
  simp only [isConfigTransaction, hp, hh, hch, hc, Bool.true_or]

theorem verifyRequest_batched {info : RequestInfo}
    (hv : v.verifyRequest codec rawTx false = .ok info) (he : unmarshal rawTx = .ok envelope)
    (ho : isConfigTransaction envelope = false) : v.verifyRequest codec rawTx true = .ok info := by
  obtain ⟨_, hn, hcs⟩ := verifyRequest_unwrap hv
  rcases hcs with hcfg | ⟨_, hb⟩
  · have hp := unwrapReq_isConfigPayload hn he
    rw [decide_eq_true hcfg] at hp
    rw [isConfigTransaction_of_config hp] at ho
    cases ho
  · exact hb

variable {requests : List Bytes}

theorem requestsBeforeConfig_spec
    (ha : ∀ rawTx ∈ requests, ∃ info, v.verifyRequest codec rawTx false = .ok info) :
    ∃ batch, requestsBeforeConfig requests = .ok batch ∧ batch <+: requests ∧
      ∀ rawTx ∈ batch, ∀ info, v.verifyRequest codec rawTx false = .ok info →
        v.verifyRequest codec rawTx true = .ok info := by
  induction requests with
  | nil => exact ⟨[], rfl, prefix_rfl, by simp⟩
  | cons rawTx _ ih =>
    obtain ⟨_, hv⟩ := ha rawTx mem_cons_self
    obtain ⟨_, hn, _⟩ := verifyRequest_unwrap hv
    obtain ⟨envelope, he⟩ := unwrapReq_envelope hn
    simp only [requestsBeforeConfig, he]
    by_cases hc : isConfigTransaction envelope = true
    · exact ⟨[], by rw [if_pos hc], nil_prefix, by simp⟩
    obtain ⟨batch, hbt, hp, hb⟩ := ih fun other ho => ha other (mem_cons_of_mem _ ho)
    refine ⟨rawTx :: batch, ?_, ?_, ?_⟩
    · rw [if_neg hc, hbt]
      rfl
    · exact (prefix_cons_inj rawTx).mpr hp
    intro other ho f hg
    rcases mem_cons.mp ho with heq | hlat
    · subst heq
      exact verifyRequest_batched hg he (by simpa using hc)
    · exact hb other hlat f hg

theorem batch_spec (hne : requests ≠ [])
    (ha : ∀ rawTx ∈ requests, ∃ info, v.verifyRequest codec rawTx false = .ok info) :
    ∃ batch, singleConfigTxOrSeveralNonConfigTx requests = .ok batch ∧
      batch <+: requests ∧ batch ≠ [] ∧
      ∀ rawTx ∈ batch, ∀ info, v.verifyRequest codec rawTx false = .ok info →
        v.verifyRequest codec rawTx (decide (batch.length > 1)) = .ok info := by
  obtain ⟨pre, hp, hr, hb⟩ := requestsBeforeConfig_spec ha
  unfold singleConfigTxOrSeveralNonConfigTx
  rw [hp]
  by_cases hey : pre.length = 0
  · refine ⟨requests.take 1, ?_, take_prefix 1 requests, ?_, ?_⟩
    · simp only [bind, Except.bind, if_pos hey]
    · cases requests with
      | nil => exact absurd rfl hne
      | cons => simp
    · intro _ _ _ _
      have hl := length_take_le 1 requests
      rwa [decide_eq_false (by omega)]
  · refine ⟨pre, ?_, hr, ?_, ?_⟩
    · simp only [bind, Except.bind, if_neg hey]
    · intro hn
      exact hey (by rw [hn]; rfl)
    intro rawTx hm info hv
    by_cases hs : pre.length > 1
    · rw [decide_eq_true hs]
      exact hb rawTx hm info hv
    · rwa [decide_eq_false hs]

variable {batch : List Bytes}

theorem mapM_verifyRequest {several : Bool}
    (ha : ∀ rawTx ∈ batch, ∃ info, v.verifyRequest codec rawTx false = .ok info)
    (hag : ∀ rawTx ∈ batch, ∀ info, v.verifyRequest codec rawTx false = .ok info →
      v.verifyRequest codec rawTx several = .ok info) :
    ∃ infos, (batch.mapM fun rawTx => v.verifyRequest codec rawTx false) = .ok infos ∧
      (batch.mapM fun rawTx => v.verifyRequest codec rawTx several) = .ok infos := by
  induction batch with
  | nil => exact ⟨[], rfl, rfl⟩
  | cons rawTx _ ih =>
    obtain ⟨info, hf⟩ := ha rawTx mem_cons_self
    have hs := hag rawTx mem_cons_self info hf
    obtain ⟨infos, hrs, ho⟩ := ih (fun lt hl => ha lt (mem_cons_of_mem _ hl))
      (fun lt hl => hag lt (mem_cons_of_mem _ hl))
    refine ⟨info :: infos, ?_, ?_⟩
    · rw [mapM_cons, hf, hrs]
      rfl
    · rw [mapM_cons, hs, ho]
      rfl

/-! ## The checks of the follower -/

variable (rtc : RuntimeConfig codec)

theorem verifyHashChain_assembled (md : Bytes) (batch : List Bytes) :
    verifyHashChain codec (assembleBlock rtc md batch) rtc.lastCommittedBlockHash = .ok () ↔
      verifyTransactionsAreWellFormed batch = .ok () := by
  unfold verifyHashChain
  rw [if_neg (by simp [assembleBlock, rtc.hash_eq])]
  unfold blockDataHash
  cases hwl : verifyTransactionsAreWellFormed batch with
  | error | ok => simp [assembleBlock, hwl, bind, Except.bind]

theorem getMetadataFromBlock_value {block : Block} {nm : String}
    (hsl : block.metadata[index]? = some (marshalMetadataValue value))
    (hval : value.length < 2 ^ 64) :
    getMetadataFromBlock block index nm = .ok { value := value } := by
  unfold getMetadataFromBlock
  rw [hsl]
  dsimp only
  rw [unmarshalMetadata_value hval]

theorem expectedLastConfig_assembled (md : Bytes) (batch : List Bytes) :
    expectedLastConfig rtc (assembleBlock rtc md batch) < 2 ^ 64 := by
  unfold expectedLastConfig
  split_ifs
  · exact uint64_lt _
  · exact rtc.lastConfigBlock_lt

variable {view : ViewMetadata}

theorem verifyMetadata_assembled (batch : List Bytes) (hvw : unmarshalViewMetadata md = .ok view)
    (hsz : md.length < 2 ^ 63) : verifyMetadata rtc (assembleBlock rtc md batch) md = .ok () := by
  have hi := expectedLastConfig_assembled rtc md batch
  have hl := marshalOrdererBlockMetadata_length
    (expectedLastConfig rtc (assembleBlock rtc md batch)) md
  have hla := marshalLastConfig_length (expectedLastConfig rtc (assembleBlock rtc md batch))
  have hsg : getMetadataFromBlock (assembleBlock rtc md batch) 0
      "SIGNATURES" = .ok
        { value := marshalOrdererBlockMetadata
            (expectedLastConfig rtc (assembleBlock rtc md batch))
            md } :=
    getMetadataFromBlock_value rfl (by omega)
  have hc : getMetadataFromBlock (assembleBlock rtc md batch) 1
      "LAST_CONFIG" = .ok
        { value := marshalLastConfig
            (expectedLastConfig rtc (assembleBlock rtc md batch)) } :=
    getMetadataFromBlock_value rfl (by omega)
  unfold verifyMetadata
  simp only [hsg, hc, bind, Except.bind,
    unmarshalOrdererBlockMetadata_marshal hi (by omega : md.length <
      2 ^ 64), hvw, ViewMetadata.equal_refl,
    unmarshalLastConfig_marshal hi]
  simp

theorem proposalToBlock_assembled (sequence : ℕ)
    (hsz : md.length < 2 ^ 63) (hbt : ∀ rawTx ∈ batch, rawTx.length < 2 ^ 63) :
    proposalToBlock codec (blockProposal codec (assembleBlock rtc md batch) md sequence) =
      .ok (assembleBlock rtc md batch) := by
  have hdt : unmarshalRepeated
      (marshalRepeated (assembleBlock rtc md batch).data) =
        .ok (assembleBlock rtc md batch).data := by
    apply unmarshalRepeated_marshalRepeated
    intro rawTx hm
    have hlt := hbt rawTx hm
    omega
  have hval : ∀ value : Bytes, (marshalMetadataValue value).length ≤
      value.length + 20 := appendBytesField_length_le 1
  have hmt : unmarshalRepeated
      (marshalRepeated (assembleBlock rtc md batch).metadata) =
        .ok (assembleBlock rtc md batch).metadata := by
    apply unmarshalRepeated_marshalRepeated
    intro _ hm
    simp only [assembleBlock, mem_cons, not_mem_nil, or_false] at hm
    rcases hm with rfl | rfl | rfl | rfl | rfl
    · have hf := hval (marshalOrdererBlockMetadata
        (if hasConfigTx batch then uint64 (rtc.lastBlock.number + 1)
          else rtc.lastConfigBlock) md)
      have hl := marshalOrdererBlockMetadata_length
        (if hasConfigTx batch then uint64 (rtc.lastBlock.number + 1)
          else rtc.lastConfigBlock) md
      omega
    · have hs := hval (marshalLastConfig
        (if hasConfigTx batch then uint64 (rtc.lastBlock.number + 1)
          else rtc.lastConfigBlock))
      have hl := marshalLastConfig_length
        (if hasConfigTx batch then uint64 (rtc.lastBlock.number + 1)
          else rtc.lastConfigBlock)
      omega
    · norm_num
    · norm_num
    · norm_num
  have hn : uint64 (Int.natAbs ((uint64 (assembleBlock rtc md batch).header.number : ℕ) : ℤ)) =
      (assembleBlock rtc md batch).header.number := by
    change uint64 (Int.natAbs ((uint64 (uint64 (rtc.lastBlock.number + 1)) : ℕ) : ℤ)) = uint64 _
    rw [Int.natAbs_natCast, uint64_of_lt (uint64_lt _), uint64_of_lt (uint64_lt _)]
  unfold proposalToBlock
  simp only [blockProposal, blockHeaderBytes, length_eq_zero_iff,
    codec.marshalHeader_ne, codec.marshalTuple_ne, if_false,
    codec.unmarshal_marshalHeader, codec.unmarshal_marshalTuple, hdt,
    hmt, hn]

theorem verifyProposal_assembled {rtc : RuntimeConfig codec} {infos : List RequestInfo}
    (hbt : ∀ rawTx ∈ batch, rawTx.length < 2 ^ 63) (hvw : unmarshalViewMetadata md = .ok view)
    (hsz : md.length < 2 ^ 63) (hne : batch ≠ [])
    (hin : v.validateTransactions codec batch = .ok infos) (f : List RequestInfo) :
    v.verifyProposal rtc (blockProposal codec
        (assembleBlock rtc md batch) md v.verificationSequence) =
        .ok f ↔
      verifyTransactionsAreWellFormed batch = .ok () ∧ f = infos := by
  rw [← verifyHashChain_assembled rtc md]
  have hl : (assembleBlock rtc md batch).data.length ≠ 0 := by
    simpa [assembleBlock] using hne
  have hc : v.verifyBlockDataAndMetadata rtc (assembleBlock rtc md batch) md = .ok infos := by
    unfold verifyBlockDataAndMetadata
    rw [if_neg hl, if_neg (by simp [assembleBlock, metadataSlots]),
      verifyMetadata_assembled rtc batch hvw hsz]
    exact hin
  have hrd := proposalToBlock_assembled rtc v.verificationSequence hsz hbt
  have heq : uint64 v.verificationSequence = uint64OfInt (int64 v.verificationSequence) :=
    (uint64OfInt_int64 _).symm
  have hpr : verifyHashChain codec (assembleBlock rtc md batch)
      rtc.lastCommittedBlockHash = .ok () →
      v.verifyProposal rtc (blockProposal codec (assembleBlock rtc md batch) md
        v.verificationSequence) = .ok infos := by
    intro hch
    refine bind_of_ok hrd ?_
    refine bind_of_ok hch ?_
    refine bind_of_ok hc ?_
    exact if_neg (not_not.mpr heq)
  constructor
  · intro hg
    obtain ⟨_, hb, hrs⟩ := of_bind hg
    rw [hrd] at hb
    cases hb
    obtain ⟨_, hch, _⟩ := of_bind hrs
    rw [hpr hch] at hg
    cases hg
    exact ⟨hch, rfl⟩
  · intro ha
    rw [ha.2]
    exact hpr ha.1

/-- The signature of the sample before its payload: the same envelope, not in
the order of its fields. -/
def reorderedRequest : Bytes :=
  appendBytesField 2 [7] ++
    appendBytesField 1
      (appendBytesField 1
        (appendBytesField 1 ([8, 3] ++ appendBytesField 4 [99]) ++
          appendBytesField 2 (appendBytesField 1 [5])))

def sampleRequests : List Bytes := [sampleRequest, reorderedRequest, sampleRequest]

end FabricSequencer.Smartbft
