import FabricSequencer.BlockSignature
import Mathlib.Data.Finset.Card

/-!
# A verified block has a quorum of signers

The evaluator marks one unused identity for each rule that passes, so the
number of rules that passed is the number of identities in use.  These are
distinct since duplicates were dropped before, and each of them encodes a
consenter.  Two quorums of one consenter set share more members than may be
faulty.
-/

namespace FabricSequencer.Protoutil

open ProtoWire Blockwriter List Finset

section Identities

variable {Identity : Type} (msp : Msp Identity) {identity : Identity}

theorem Msp.deserialize_of_satisfiesPrincipal
    {principal : Bytes} (hs : msp.satisfiesPrincipal identity principal = true) :
    msp.deserialize principal = some identity := by
  unfold Msp.satisfiesPrincipal at hs
  split at hs
  · simp at hs
  next hpn =>
    simp only [Bool.and_eq_true, decide_eq_true_eq] at hs
    rw [hpn, msp.ext _ _ hs.1.1 hs.1.2]

theorem validIdentities_keys (seen : List GoString) (set : List SignedData) :
    ((validIdentities msp seen set).map msp.key).Nodup ∧
      ∀ identity ∈ validIdentities msp seen set, msp.key identity ∉ seen := by
  induction set generalizing seen with
  | nil => simp [validIdentities]
  | cons _ _ ih =>
    unfold validIdentities
    split
    · exact ih seen
    rename_i identity _
    split_ifs with hseen
    · exact ih seen
    · exact ih seen
    obtain ⟨hnd, hfr⟩ := ih (msp.key identity :: seen)
    constructor
    · simp only [List.map_cons, List.nodup_cons, List.mem_map, not_exists, not_and]
      refine ⟨?_, hnd⟩
      intro other ho hk
      exact hfr other ho (by simp [hk])
    intro other ho
    rcases mem_cons.mp ho with heq | hrest
    · rw [heq]
      exact hseen
    · intro hm
      exact hfr other hrest (mem_cons_of_mem _ hm)

theorem signatureSetToValidIdentities_nodup (set : List SignedData) :
    (signatureSetToValidIdentities msp set).Nodup :=
  List.Nodup.of_map _ (validIdentities_keys msp [] set).1

theorem validIdentities_signed {seen : List GoString} {set : List SignedData}
    (hm : identity ∈ validIdentities msp seen set) :
    ∃ sd ∈ set, msp.deserialize sd.identity = some identity ∧
      msp.verify identity sd.data sd.signature = true := by
  induction set generalizing seen with
  | nil => simp [validIdentities] at hm
  | cons sd tl ih =>
    have hl : ∀ {seen : List GoString}, identity ∈ validIdentities msp seen tl →
        ∃ f ∈ sd :: tl, msp.deserialize f.identity = some identity ∧
          msp.verify identity f.data f.signature = true := by
      intro _ hrs
      obtain ⟨f, hg, hsg⟩ := ih hrs
      exact ⟨f, mem_cons_of_mem _ hg, hsg⟩
    unfold validIdentities at hm
    split at hm
    · exact hl hm
    rename_i first hf
    split_ifs at hm with hseen hv
    · exact hl hm
    · exact hl hm
    · rcases mem_cons.mp hm with heq | hrs
      · subst heq
        exact ⟨sd, mem_cons_self, hf, by simpa using hv⟩
      · exact hl hrs

variable (identities : List Identity)

def usedIdentities (used : List Bool) : List Identity :=
  ((identities.zip used).filter Prod.snd).map Prod.fst

theorem usedIdentities_sublist (used : List Bool) :
    (usedIdentities identities used).Sublist identities := by
  induction identities generalizing used with
  | nil => exact List.Sublist.refl []
  | cons identity _ ih =>
    cases used with
    | nil => exact nil_sublist _
    | cons use used =>
      cases use with
      | false => simpa [usedIdentities] using (ih used).cons identity
      | true => simpa [usedIdentities] using (ih used).cons_cons identity

theorem usedIdentities_replicate :
    usedIdentities identities (List.replicate identities.length false) = [] := by
  induction identities with
  | nil => rfl
  | cons _ _ ih => simpa [usedIdentities, replicate_succ] using ih

variable {identities : List Identity} {used after : List Bool}

theorem useFirst_perm {principal : Bytes}
    (hs : useFirst msp principal identities used = some after) :
    ∃ identity, msp.deserialize principal = some identity ∧
      (usedIdentities identities after).Perm (identity :: usedIdentities identities used) := by
  induction identities generalizing used after with
  | nil => simp [useFirst] at hs
  | cons identity _ ih =>
    cases used with
    | nil => simp [useFirst] at hs
    | cons use =>
      unfold useFirst at hs
      split_ifs at hs with hf
      · simp only [Bool.and_eq_true, Bool.not_eq_true'] at hf
        obtain rfl := Option.some.inj hs
        refine ⟨identity, msp.deserialize_of_satisfiesPrincipal hf.2, ?_⟩
        simp [usedIdentities, hf.1]
      obtain ⟨_, hrs, rfl⟩ := Option.map_eq_some_iff.mp hs
      obtain ⟨f, hg, hpr⟩ := ih hrs
      refine ⟨f, hg, ?_⟩
      cases use with
      | false => simpa [usedIdentities] using hpr
      | true =>
        have hcn := (hpr.cons identity).trans (List.Perm.swap f identity _)
        simpa [usedIdentities] using hcn

variable {principals : List Bytes}

theorem evaluateAll_signedBy_none {i : ℤ} {used : List Bool} (rules : List SignaturePolicy)
    (hs : useFirst msp (principals.getD i.toNat []) identities used = none) :
    evaluateAll msp principals identities (.signedBy i :: rules) used =
      evaluateAll msp principals identities rules used := by
  simp only [evaluateAll, evaluate, hs]
  simp

theorem evaluateAll_signedBy_some {i : ℤ} (rules : List SignaturePolicy)
    (hs : useFirst msp (principals.getD i.toNat []) identities used = some after) :
    evaluateAll msp principals identities (.signedBy i :: rules) used =
      ((evaluateAll msp principals identities rules after).1 + 1,
        (evaluateAll msp principals identities rules after).2) := by
  simp only [evaluateAll, evaluate, hs]
  simp

theorem evaluateAll_perm (identities : List Identity) (indexes : List ℤ)
    (hn : ∀ i ∈ indexes, i.toNat < principals.length) (used : List Bool) :
    ∃ cn : List Identity,
      cn.length = (evaluateAll msp principals identities (indexes.map .signedBy) used).1 ∧
      (∀ identity ∈ cn, ∃ principal ∈ principals, msp.deserialize principal = some identity) ∧
      (usedIdentities identities (evaluateAll msp principals identities
        (indexes.map .signedBy) used).2).Perm
        (cn ++ usedIdentities identities used) := by
  induction indexes generalizing used with
  | nil => exact ⟨[], rfl, by simp, .refl _⟩
  | cons i indexes ih =>
    have hi := hn i mem_cons_self
    have hrs : ∀ i ∈ indexes, i.toNat < principals.length :=
      fun other ho => hn other (List.mem_cons_of_mem _ ho)
    rw [List.map_cons]
    cases hs : useFirst msp (principals.getD i.toNat []) identities used with
    | none =>
      rw [evaluateAll_signedBy_none msp _ hs]
      exact ih hrs used
    | some after =>
      rw [evaluateAll_signedBy_some msp _ hs]
      obtain ⟨identity, hid, hf⟩ := useFirst_perm msp hs
      obtain ⟨cn, hl, hc, hpr⟩ := ih hrs after
      refine ⟨identity :: cn, by simpa using hl, ?_, ?_⟩
      · intro other ho
        rcases mem_cons.mp ho with heq | hmem
        · refine ⟨principals.getD i.toNat [], ?_, heq ▸ hid⟩
          rw [getD_eq_getElem?_getD, List.getElem?_eq_getElem hi]
          exact getElem_mem hi
        · exact hc other hmem
      · have hbo := (hpr.trans (hf.append_left cn)).trans perm_middle
        simpa using hbo

end Identities

/-! ## The policy of a BFT channel -/

theorem int32_of_lt {n : ℕ} (hn : n < 2 ^ 31) : int32 n = n := by
  have hm : n % 2 ^ 32 = n := Nat.mod_eq_of_lt (by omega)
  unfold int32
  rw [hm, if_pos hn]

theorem compileAll_ok_iff (principals : List Bytes) (indexes : List ℤ) :
    compileAll principals (indexes.map .signedBy) = .ok () ↔
      ∀ i ∈ indexes, 0 ≤ i ∧ i < int32 principals.length := by
  induction indexes with
  | nil => simp [compileAll]
  | cons _ _ ih =>
    simp only [List.map_cons, compileAll, compile, List.forall_mem_cons]
    split_ifs with hrange
    · constructor
      · intro hr
        cases hr
      · intro ha
        omega
    · constructor
      · intro hrs
        exact ⟨by omega, ih.mp hrs⟩
      · intro ha
        exact ih.mpr ha.2

def bftIndexes (consenters : List Consenter) : List ℤ :=
  (List.range consenters.length).map fun i => int32 i

theorem bftRules_eq (consenters : List Consenter) : (consenters.zipIdx.map fun entry =>
      SignaturePolicy.signedBy (int32 entry.2)) =
      (bftIndexes consenters).map .signedBy := by
  have hs : consenters.zipIdx.map Prod.snd = List.range consenters.length := by
    simp [List.zipIdx_map_snd, List.range_eq_range']
  rw [bftIndexes, ← hs, List.map_map, List.map_map]
  rfl

/-- A policy that compiles has fewer than `2 ^ 31` consenters: otherwise the
rule with the largest index is out of range. -/
theorem length_lt_of_compileAll {consenters : List Consenter}
    (hc : compileAll (consenters.map consenterIdentity)
      ((bftIndexes consenters).map .signedBy) = .ok ()) :
    consenters.length < 2 ^ 31 := by
  by_contra hlarge
  have ha := (compileAll_ok_iff _ _).mp hc
  have hla : int32 (2 ^ 31 - 1) ∈ bftIndexes consenters :=
    List.mem_map.mpr ⟨2 ^ 31 - 1, List.mem_range.mpr (by omega), rfl⟩
  have hlt := (ha _ hla).2
  rw [int32_of_lt (by norm_num)] at hlt
  unfold int32 at hlt
  split_ifs at hlt <;> omega

theorem computeBFTQuorum_intersect (n : ℕ) :
    n + faultyNodes n + 1 ≤ 2 * computeBFTQuorum n (faultyNodes n) := by
  unfold computeBFTQuorum
  omega

section Blocks

variable {Identity : Type} (msp : Msp Identity) (headerBytes : BlockHeader → Bytes)

/-- The identity is a consenter's, and one of the stored signatures is its
signature over the stored value, a header of the signature and the block
header. -/
structure Signs (consenters : List Consenter) (header : BlockHeader)
    (metadata : List Bytes) (identity : Identity) : Prop where
  consenter : ∃ consenter ∈ consenters,
    msp.deserialize (consenterIdentity consenter) = some identity
  signed : ∃ md signature, ∃ ownHeader : Bytes,
    metadata.head?.map unmarshalMetadata = some (.ok md) ∧
    signature ∈ md.signatures ∧
    (ownHeader = signature.signatureHeader ∨ ownHeader = signature.identifierHeader) ∧
    msp.verify identity (md.value ++ ownHeader ++ headerBytes header) signature.signature = true

variable {set : List SignedData}

theorem evaluateSignedData_ok {policy : SignaturePolicyEnvelope}
    (ha : evaluateSignedData msp policy set = .ok ()) :
    compile policy.identities policy.rule = .ok () ∧
      (evaluate msp policy.identities (signatureSetToValidIdentities msp set)
        policy.rule (List.replicate
          (signatureSetToValidIdentities msp set).length false)).1 = true := by
  unfold evaluateSignedData at ha
  obtain ⟨_, hc, hgt⟩ := of_bind ha
  refine ⟨hc, ?_⟩
  by_contra hfails
  rw [if_neg hfails] at hgt
  cases hgt

variable {consenters : List Consenter}

theorem evaluateSignedData_quorum
    (ha : evaluateSignedData msp (encodeBFTBlockVerificationPolicy consenters) set = .ok ()) :
    ∃ signers : List Identity, signers.Nodup ∧
      computeBFTQuorum consenters.length (faultyNodes consenters.length) ≤ signers.length ∧
      ∀ identity ∈ signers, identity ∈ signatureSetToValidIdentities msp set ∧
        ∃ con ∈ consenters, msp.deserialize (consenterIdentity con) = some identity := by
  obtain ⟨hp, hgt⟩ := evaluateSignedData_ok msp ha
  simp only [encodeBFTBlockVerificationPolicy, bftRules_eq, compile, evaluate,
    decide_eq_true_eq, ge_iff_le] at hp hgt
  have hl := length_lt_of_compileAll hp
  have hn : ∀ i ∈ bftIndexes consenters, i.toNat < (consenters.map consenterIdentity).length := by
    intro i hi
    have hrn := (compileAll_ok_iff _ _).mp hp i hi
    rw [int32_of_lt (by simpa using hl)] at hrn
    omega
  obtain ⟨cn, hc, hh, hpr⟩ := evaluateAll_perm msp (signatureSetToValidIdentities msp set)
    (bftIndexes consenters) hn (List.replicate (signatureSetToValidIdentities msp set).length false)
  rw [usedIdentities_replicate, append_nil] at hpr
  have hs := usedIdentities_sublist
    (signatureSetToValidIdentities msp set) (evaluateAll msp
      (consenters.map consenterIdentity) (signatureSetToValidIdentities msp set)
      ((bftIndexes consenters).map .signedBy) (List.replicate
        (signatureSetToValidIdentities msp set).length false)).2
  have hnd : cn.Nodup := hpr.nodup_iff.mp (hs.nodup (signatureSetToValidIdentities_nodup msp set))
  refine ⟨cn, hnd, ?_, ?_⟩
  · -- the count and the threshold are small enough for `int32`
    rw [← hc] at hgt
    unfold int32 at hgt
    have hq : computeBFTQuorum consenters.length (faultyNodes consenters.length) < 2 ^ 31 := by
      unfold computeBFTQuorum faultyNodes
      omega
    rw [Nat.mod_eq_of_lt (by omega : computeBFTQuorum consenters.length
      (faultyNodes consenters.length) < 2 ^ 32), if_pos hq] at hgt
    have hd := Nat.mod_le cn.length (2 ^ 32)
    split_ifs at hgt <;> omega
  · intro identity hm
    refine ⟨hs.subset (hpr.mem_iff.mpr hm), ?_⟩
    obtain ⟨_, hpn, hds⟩ := hh identity hm
    obtain ⟨con, hcn, rfl⟩ := mem_map.mp hpn
    exact ⟨con, hcn, hds⟩

variable {header : BlockHeader}

theorem signedDataOf_spec {bftEnabled : Bool} {md : Metadata} {sig : MetadataSignature}
    {sd : SignedData}
    (hdt : signedDataOf headerBytes bftEnabled consenters header md sig = .ok (some sd)) :
    sd.signature = sig.signature ∧ ∃ ownHeader : Bytes,
      (ownHeader = sig.signatureHeader ∨ ownHeader = sig.identifierHeader) ∧
      sd.data = md.value ++ ownHeader ++ headerBytes header := by
  unfold signedDataOf at hdt
  split at hdt
  · split at hdt
    · cases hdt
    dsimp only at hdt
    split_ifs at hdt
    · cases hdt
    · cases hdt
      exact ⟨rfl, _, .inr rfl, rfl⟩
  · split at hdt
    · cases hdt
    · cases hdt
      exact ⟨rfl, _, .inl rfl, rfl⟩

variable {metadata : List Bytes}

theorem signatureSetOf_spec {bftEnabled : Bool}
    (hs : signatureSetOf headerBytes bftEnabled consenters header metadata = .ok set) :
    ∃ md, metadata.head?.map unmarshalMetadata = some (.ok md) ∧
      ∀ sd ∈ set, ∃ sig ∈ md.signatures,
        signedDataOf headerBytes bftEnabled consenters header md sig = .ok (some sd) := by
  unfold signatureSetOf at hs
  split at hs
  · cases hs
  rename_i slot tl
  split at hs
  · cases hs
  rename_i md hmd
  obtain ⟨signed, hsg, hf⟩ := of_bind hs
  cases hf
  refine ⟨md, by simp [hmd], ?_⟩
  intro sd hsd
  have hm : some sd ∈ signed := by
    simpa [List.mem_filterMap] using hsd
  exact (Except.of_mapM hsg).2 _ hm

theorem exists_signers
    (ha : blockSignatureVerifier msp headerBytes true consenters
      (encodeBFTBlockVerificationPolicy consenters) header metadata = .ok ()) :
    ∃ signers : Finset Identity,
      computeBFTQuorum consenters.length (faultyNodes consenters.length) ≤ signers.card ∧
      ∀ identity ∈ signers, Signs msp headerBytes consenters header metadata identity := by
  obtain ⟨_, hs, hpol⟩ := of_bind ha
  obtain ⟨signers, hnd, hq, hg⟩ := evaluateSignedData_quorum msp hpol
  obtain ⟨md, hmd, hsg⟩ := signatureSetOf_spec headerBytes hs
  refine ⟨⟨signers, hnd⟩, hq, ?_⟩
  intro identity hm
  obtain ⟨hok, hcn⟩ := hg identity hm
  obtain ⟨sd, hsd, _, hv⟩ := validIdentities_signed msp hok
  obtain ⟨sig, hsig, hdt⟩ := hsg sd hsd
  obtain ⟨heq, ownHeader, hw, hp⟩ := signedDataOf_spec headerBytes hdt
  rw [heq, hp] at hv
  exact ⟨hcn, md, sig, ownHeader, hmd, hsig, hw, hv⟩

theorem exists_common {first second : Finset Identity}
    (hf : computeBFTQuorum consenters.length (faultyNodes consenters.length) ≤ first.card)
    (hs : computeBFTQuorum consenters.length (faultyNodes consenters.length) ≤ second.card)
    (hcn : ∀ identity, identity ∈ first ∨ identity ∈ second →
      ∃ con ∈ consenters, msp.deserialize (consenterIdentity con) = some identity) :
    ∃ common : Finset Identity, faultyNodes consenters.length + 1 ≤ common.card ∧
      common ⊆ first ∧ common ⊆ second := by
  classical
  have hun : (first ∪ second).card ≤ consenters.length := by
    have hb : first ∪ second ⊆ (consenters.filterMap fun con =>
        msp.deserialize (consenterIdentity con)).toFinset := by
      intro identity hm
      obtain ⟨con, hm', hid⟩ := hcn identity (mem_union.mp hm)
      exact mem_toFinset.mpr (mem_filterMap.mpr ⟨con, hm', hid⟩)
    calc
      (first ∪ second).card ≤ _ := card_le_card hb
      _ ≤ _ := toFinset_card_le _
      _ ≤ consenters.length := length_filterMap_le ..
  have hin := card_union_add_card_inter first second
  have hq := computeBFTQuorum_intersect consenters.length
  exact ⟨first ∩ second, by omega, inter_subset_left, inter_subset_right⟩

/-- A block that the verifier of a BFT channel accepts was signed by a quorum
of consenters, and any other accepted header of the same height shares more
signers with it than may be faulty. -/
theorem accepted_block_has_quorum (consenters : List Consenter)
    (header : BlockHeader) (metadata : List Bytes)
    (haccept : blockSignatureVerifier msp headerBytes true consenters
      (encodeBFTBlockVerificationPolicy consenters) header metadata = .ok ()) :
    (∃ signers : Finset Identity,
      computeBFTQuorum consenters.length (faultyNodes consenters.length) ≤ signers.card ∧
      ∀ identity ∈ signers, Signs msp headerBytes consenters header metadata identity) ∧
    ∀ (other : BlockHeader) (otherMetadata : List Bytes), other.number = header.number →
      blockSignatureVerifier msp headerBytes true consenters
        (encodeBFTBlockVerificationPolicy consenters) other otherMetadata
        = .ok () →
      ∃ common : Finset Identity, faultyNodes consenters.length + 1 ≤ common.card ∧
        ∀ identity ∈ common, Signs msp headerBytes consenters header metadata identity ∧
          Signs msp headerBytes consenters other otherMetadata identity := by
  obtain ⟨first, hfst, hsg⟩ := exists_signers msp headerBytes haccept
  refine ⟨⟨first, hfst, hsg⟩, ?_⟩
  intro _ _ _ hoth
  obtain ⟨b, hsnd, hos⟩ := exists_signers msp headerBytes hoth
  have hcn : ∀ identity, identity ∈ first ∨ identity ∈ b →
      ∃ con ∈ consenters, msp.deserialize (consenterIdentity con) = some identity := by
    intro identity hmem
    rcases hmem with hmem | hmem
    · exact (hsg identity hmem).consenter
    · exact (hos identity hmem).consenter
  obtain ⟨common, hcr, hlf, hrg⟩ := exists_common msp hfst hsnd hcn
  refine ⟨common, hcr, ?_⟩
  intro identity hmem
  exact ⟨hsg identity (hlf hmem), hos identity (hrg hmem)⟩

end Blocks

/-- Identities are their encodings, and a signature is the signed bytes. -/
def sampleMsp : Msp Bytes where
  deserialize := some
  mspid _ := []
  id identity := identity
  certRaw identity := identity
  validate _ := true
  verify _ data signature := data = signature
  ext _ _ _ hcert := hcert

def sampleConsenters : List Consenter := [1, 2, 3, 4].map fun id => ⟨id, [79], [Fin.ofNat 256 id]⟩

def sampleHeader : BlockHeader := ⟨5, [], []⟩

/-- Signatures whose identifier headers name the consenters 1, 2 and 4. -/
def sampleMetadata : List Bytes :=
  [[1, 2, 4].flatMap fun id =>
    appendBytesField 2 (appendBytesField 2 [8, id, 5] ++ appendBytesField 3 [8, id])]

theorem accepted_sample_has_quorum :
    ∃ signers : Finset Bytes, 3 ≤ signers.card ∧
      ∀ identity ∈ signers, Signs sampleMsp (fun header => [Fin.ofNat 256 header.number])
        sampleConsenters sampleHeader sampleMetadata identity :=
  (accepted_block_has_quorum sampleMsp (fun header => [Fin.ofNat 256 header.number])
    sampleConsenters sampleHeader sampleMetadata (by decide +kernel)).1

end FabricSequencer.Protoutil
