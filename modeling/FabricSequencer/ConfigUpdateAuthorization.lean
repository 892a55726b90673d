import FabricSequencer.ConfigRebuild
import FabricSequencer.MultichannelSupport

/-!
# Authorization of configuration updates

A configuration update names the elements it relies on in a read set and the
elements it writes in a write set.  The validator of a channel accepts it if
the read set is current and if every written element follows the version of
the present one and satisfies the present one's `mod_policy`.
-/

namespace FabricSequencer

open SortedMap List Option Outcome

structure Config where
  sequence : ℕ
  channelGroup : Option ConfigGroup

structure ConfigUpdate where
  channelId : GoString
  readSet : Option ConfigGroup
  writeSet : Option ConfigGroup

structure ConfigSignature where
  signatureHeader : Bytes
  signature : Bytes

/-- `ConfigUpdateEnvelope`; the update itself is still encoded. -/
structure ConfigUpdateEnvelope where
  configUpdate : Bytes
  signatures : List ConfigSignature

structure SignedData where
  data : Bytes
  identity : Bytes
  signature : Bytes

/-- The decoders of the messages.  Of a signature header only the creator is
used. -/
structure ConfigCodec where
  envelopeToConfigUpdate : Envelope → Except String ConfigUpdateEnvelope
  unmarshalConfigUpdate : Bytes → Except String ConfigUpdate
  unmarshalSignatureHeader : Bytes → Except String Bytes

variable (codec : ConfigCodec)

def configUpdateEnvelopeAsSignedData (ce : ConfigUpdateEnvelope) : Outcome (List SignedData) :=
  ce.signatures.mapM fun configSig => do
    let creator ← Outcome.returned (codec.unmarshalSignatureHeader configSig.signatureHeader)
    pure { data := configSig.signatureHeader ++ ce.configUpdate
           identity := creator, signature := configSig.signature }

namespace Policies

structure Policy where
  evaluateSignedData : List SignedData → Outcome Unit

inductive Manager where
  | mk (manager : List GoString → Option Manager) (getPolicy : GoString → Option Policy)

def Manager.manager : Manager → List GoString → Option Manager
  | .mk manager _ => manager

def Manager.getPolicy : Manager → GoString → Option Policy
  | .mk _ getPolicy => getPolicy

end Policies

/-! ## The validator -/

/-- `ValidatorImpl`.  The map is that of the configuration it holds. -/
structure ValidatorImpl where
  channelID : GoString
  sequence : ℕ
  configMap : ConfigMap
  configProto : Config
  nameSpace : GoString
  pm : Policies.Manager
  held : ∃ group, configProto.channelGroup = some group ∧
    mapConfig (some group) nameSpace = .ok configMap

def newValidatorImpl (channelID : GoString) (config : Option Config)
    (nameSpace : GoString) (pm : Policies.Manager) : Outcome ValidatorImpl :=
  match config with
  | none => .error (.error "nil config parameter")
  | some config =>
    match hgroup : config.channelGroup with
    | none => .error (.error "nil channel group")
    | some group => do
        (validateChannelID channelID).withMessage "bad channel ID"
        match hmap : mapConfig (some group) nameSpace with
        | .error failure => Outcome.withMessage "error converting config to map" (.error failure)
        | .ok configMap =>
          pure { channelID := channelID, sequence := config.sequence
                 configMap := configMap, configProto := config
                 nameSpace := nameSpace, pm := pm
                 held := ⟨group, hgroup, hmap⟩ }

def verifyReadElement (configMap : ConfigMap) (key : GoString)
    (value : Comparable) : Outcome Unit :=
  match configMap.get key with
  | none =>
    .error (.error ("existing config does not contain element for " ++
      printed key ++ " but was in the read set"))
  | some existing =>
    if existing.item.version ≠ value.item.version then
      .error (.error ("proposed update requires that key " ++ printed key ++
        " be at version " ++ toString value.item.version ++
        ", but it is currently at version " ++
        toString existing.item.version))
    else .ok ()

def verifyReadSet (configMap readSet : ConfigMap) : Outcome Unit :=
  readSet.entries.forM fun entry =>
    verifyReadElement configMap entry.1 entry.2

def computeDeltaSet (readSet writeSet : ConfigMap) : ConfigMap :=
  writeSet.mapFilter fun key value =>
    match readSet.get key with
    | some readVal =>
      if readVal.item.version = value.item.version then none else some value
    | none => some value

variable (pm : Policies.Manager)

def policyForItem (item : Comparable) : Option Policies.Policy :=
  let modPolicy := item.item.modPolicy
  if modPolicy ≠ [] ∧ modPolicy.head? ≠ some slash ∧ item.path.length ≠ 0 then
    match pm.manager item.path.tail with
    | none => none
    | some manager =>
      match item.item with
      | .configGroup _ =>
        (manager.manager [item.key]).bind fun manager =>
          manager.getPolicy modPolicy
      | _ => manager.getPolicy modPolicy
  else pm.getPolicy modPolicy

def verifyDeltaElement (configMap : ConfigMap)
    (signedData : List SignedData) (key : GoString) (value : Comparable) :
    Outcome Unit := do
  (validateModPolicy value.item.modPolicy).withMessage
    ("invalid mod_policy for element " ++ printed key)
  match configMap.get key with
  | none =>
    if value.item.version ≠ 0 then
      .error (.error ("attempted to set key " ++ printed key ++
        " to version " ++ toString value.item.version ++
        ", but key does not exist"))
    else pure ()
  | some existing =>
    if value.item.version ≠ uint64 (existing.item.version + 1) then
      .error (.error ("attempt to set key " ++ printed key ++
        " to version " ++ toString value.item.version ++
        ", but key is at version " ++ toString existing.item.version))
    else
      match policyForItem pm existing with
      | none =>
        .error (.error ("unexpected missing policy " ++
          printed existing.item.modPolicy ++ " for item " ++ printed key))
      | some policy =>
        (policy.evaluateSignedData signedData).withMessage
          ("policy for " ++ printed key ++ " not satisfied")

def verifyDeltaSet (configMap deltaSet : ConfigMap) (signedData : List SignedData) : Outcome Unit :=
  if deltaSet.entries.length = 0 then
    .error (.error "delta set was empty -- update would have no effect")
  else
    deltaSet.entries.forM fun entry =>
      verifyDeltaElement pm configMap signedData entry.1 entry.2

def computeUpdateResult (configMap updatedConfig : ConfigMap) : ConfigMap :=
  SortedMap.overlay some configMap updatedConfig

def verifyFullProposedConfig (writeSet fullProposedConfig : ConfigMap) : Outcome Unit :=
  writeSet.entries.forM fun entry =>
    if (fullProposedConfig.get entry.1).isNone then
      .error (.error ("writeset contained key " ++ printed entry.1 ++
        " which did not appear in proposed config"))
    else .ok ()

namespace ValidatorImpl

def authorizeUpdate (vi : ValidatorImpl)
    (configUpdateEnv : ConfigUpdateEnvelope) : Outcome ConfigMap := do
  let configUpdate ← Outcome.returned (codec.unmarshalConfigUpdate configUpdateEnv.configUpdate)
  if configUpdate.channelId ≠ vi.channelID then
    .error (.error ("ConfigUpdate for channel '" ++
      printed configUpdate.channelId ++ "' but envelope for channel '" ++
      printed vi.channelID ++ "'"))
  else
    let readSet ← (mapConfig configUpdate.readSet vi.nameSpace).withMessage "error mapping ReadSet"
    (verifyReadSet vi.configMap readSet).withMessage "error validating ReadSet"
    let writeSet ← (mapConfig configUpdate.writeSet vi.nameSpace).withMessage
      "error mapping WriteSet"
    let deltaSet := computeDeltaSet readSet writeSet
    let signedData ← configUpdateEnvelopeAsSignedData codec configUpdateEnv
    (verifyDeltaSet vi.pm vi.configMap deltaSet signedData).withMessage "error validating DeltaSet"
    let fullProposedConfig := computeUpdateResult vi.configMap deltaSet
    (verifyFullProposedConfig writeSet fullProposedConfig).withMessage "full config did not verify"
    pure fullProposedConfig

def proposeConfigUpdate (vi : ValidatorImpl)
    (configtx : Envelope) : Outcome (Multichannel.ConfigEnvelope Config) := do
  let configUpdateEnv ←
    (Outcome.returned (codec.envelopeToConfigUpdate configtx)).withMessage
      "error converting envelope to config update"
  let configMap ← (vi.authorizeUpdate codec configUpdateEnv).withMessage "error authorizing update"
  let channelGroup ← (configMapToConfig configMap vi.nameSpace).withMessage
    "could not turn configMap back to channelGroup"
  pure { config := some
           { sequence := uint64 (vi.sequence + 1)
             channelGroup := some channelGroup }
         lastUpdate := some configtx }

def validate (codec : ConfigCodec) (vi : ValidatorImpl)
    (configEnv : Multichannel.ConfigEnvelope Config) : Outcome Unit :=
  match configEnv.config with
  | none => .error (.error "config envelope has nil config")
  | some config =>
    if config.sequence ≠ uint64 (vi.sequence + 1) then
      .error (.error ("config currently at sequence " ++
        toString vi.sequence ++ ", cannot validate config at sequence " ++
        toString config.sequence))
    else
      match configEnv.lastUpdate with
      | none => .error (.panic "invalid memory address or nil pointer dereference")
      | some lastUpdate => do
          let configUpdateEnv ← Outcome.returned (codec.envelopeToConfigUpdate lastUpdate)
          let configMap ← vi.authorizeUpdate codec configUpdateEnv
          let channelGroup ←
            (configMapToConfig configMap vi.nameSpace).withMessage
              "could not turn configMap back to channelGroup"
          if some channelGroup ≠ config.channelGroup then
            .error (.error ("ConfigEnvelope LastUpdate did not produce " ++
              "the supplied config result"))
          else .ok ()

end ValidatorImpl

/-! ## What is checked -/

variable {key : GoString} {v : Comparable} {cm : ConfigMap}

theorem verifyReadElement_iff :
    verifyReadElement cm key v = .ok () ↔
      ∃ ex, cm.get key = some ex ∧ ex.item.version = v.item.version := by
  unfold verifyReadElement
  cases cm.get key with
  | none => simp
  | some ex =>
    by_cases hv : ex.item.version = v.item.version <;>
      simp [hv]

theorem verifyReadSet_iff {cm readSet : ConfigMap} :
    verifyReadSet cm readSet = .ok () ↔
      ∀ key v, readSet.get key = some v →
        ∃ ex, cm.get key = some ex ∧ ex.item.version = v.item.version := by
  unfold verifyReadSet
  rw [forM_eq_ok_iff]
  simp only [verifyReadElement_iff, Prod.forall, get_eq_some_iff]

theorem get_computeDeltaSet {readSet wset : ConfigMap} :
    (computeDeltaSet readSet wset).get key = some v ↔
      wset.get key = some v ∧
        ∀ readVal, readSet.get key = some readVal → readVal.item.version ≠ v.item.version := by
  rw [computeDeltaSet, get_mapFilter, bind_eq_some_iff]
  cases readSet.get key with
  | none => simp
  | some =>
    simp only [Option.some.injEq, forall_eq']
    constructor
    · rintro ⟨_, hg, hkp⟩
      split_ifs at hkp with hv
      cases hkp
      exact ⟨hg, hv⟩
    · rintro ⟨hg, hv⟩
      exact ⟨v, hg, if_neg hv⟩

theorem get_computeUpdateResult (cm updatedConfig : ConfigMap) (key : GoString) :
    (computeUpdateResult cm updatedConfig).get key =
      (updatedConfig.get key).elim (cm.get key) some :=
  get_overlay some cm updatedConfig key

def Satisfied (signedData : List SignedData) (existing : Comparable) : Prop :=
  ∃ policy, policyForItem pm existing = some policy ∧ policy.evaluateSignedData signedData = .ok ()

structure DeltaAccepted (configMap : ConfigMap)
    (signedData : List SignedData) (key : GoString) (value : Comparable) :
    Prop where
  modPolicy : validateModPolicy value.item.modPolicy = .ok ()
  added : configMap.get key = none → value.item.version = 0
  changed : ∀ existing, configMap.get key = some existing →
    value.item.version = uint64 (existing.item.version + 1) ∧ Satisfied pm signedData existing

variable {sd : List SignedData} {pm : Policies.Manager}

theorem verifyDeltaElement_iff :
    verifyDeltaElement pm cm sd key v = .ok () ↔ DeltaAccepted pm cm sd key v := by
  have hs : DeltaAccepted pm cm sd key v ↔
      validateModPolicy v.item.modPolicy = .ok () ∧ (cm.get key = none → v.item.version = 0) ∧
        ∀ existing, cm.get key = some existing →
          v.item.version = uint64 (existing.item.version + 1) ∧ Satisfied pm sd existing :=
    ⟨fun h => ⟨h.modPolicy, h.added, h.changed⟩, fun h => ⟨h.1, h.2.1, h.2.2⟩⟩
  rw [hs]
  unfold verifyDeltaElement
  rw [Except.bind_eq_ok_iff]
  constructor
  · rintro ⟨_, hmd, hrs⟩
    refine ⟨withMessage_eq_ok_iff.mp hmd, ?_⟩
    cases hg : cm.get key with
    | none =>
      simp only [hg] at hrs
      split_ifs at hrs with hv
      refine ⟨fun _ => not_not.mp hv, ?_⟩
      intro _ hsm
      cases hsm
    | some existing =>
      simp only [hg] at hrs
      refine ⟨fun hno => absurd hno (some_ne_none existing), ?_⟩
      intro _ ho
      cases ho
      split_ifs at hrs with hv
      refine ⟨not_not.mp hv, ?_⟩
      cases hpol : policyForItem pm existing with
      | none => simp [hpol] at hrs
      | some policy =>
        simp only [hpol] at hrs
        exact ⟨policy, hpol, withMessage_eq_ok_iff.mp hrs⟩
  · rintro ⟨hmd, ha, hc⟩
    refine ⟨(), withMessage_eq_ok_iff.mpr hmd, ?_⟩
    cases hg : cm.get key with
    | none => simp [ha hg, pure, Except.pure]
    | some existing =>
      obtain ⟨hv, _, hpol, hst⟩ := hc existing hg
      simp only [hv, ne_eq, not_true_eq_false, if_false, hpol]
      exact withMessage_eq_ok_iff.mpr hst

theorem verifyDeltaSet_iff {cm deltaSet : ConfigMap} :
    verifyDeltaSet pm cm deltaSet sd = .ok () ↔
      (∃ key v, deltaSet.get key = some v) ∧
        ∀ key v, deltaSet.get key = some v → DeltaAccepted pm cm sd key v := by
  have hne : (∃ key v, deltaSet.get key = some v) ↔ deltaSet.entries.length ≠ 0 := by
    simp only [get_eq_some_iff, ne_eq, length_eq_zero_iff]
    rw [← ne_eq, ne_nil_iff_exists_cons]
    constructor
    · rintro ⟨_, _, hm⟩
      exact exists_cons_of_ne_nil (ne_nil_of_mem hm)
    · rintro ⟨entry, _, he⟩
      exact ⟨entry.1, entry.2, by rw [he]; exact mem_cons_self⟩
  unfold verifyDeltaSet
  rw [hne]
  split_ifs with hnil
  · simp [hnil]
  · rw [forM_eq_ok_iff]
    simp only [verifyDeltaElement_iff, Prod.forall, get_eq_some_iff,
      ne_eq, hnil, not_false_eq_true, true_and]

theorem verifyFullProposedConfig_iff {wset fullProposedConfig : ConfigMap} :
    verifyFullProposedConfig wset fullProposedConfig = .ok () ↔
      ∀ key v, wset.get key = some v → ∃ proposed, fullProposedConfig.get key = some proposed := by
  unfold verifyFullProposedConfig
  rw [forM_eq_ok_iff]
  simp only [Prod.forall, ← get_eq_some_iff]
  apply forall₃_congr
  intro key _ _
  rw [← isSome_iff_exists]
  cases fullProposedConfig.get key <;> simp

/-- What `authorizeUpdate` has computed and checked when it returns. -/
structure Authorizes (vi : ValidatorImpl)
    (configUpdateEnv : ConfigUpdateEnvelope) (configUpdate : ConfigUpdate)
    (readSet writeSet : ConfigMap) (signedData : List SignedData) : Prop where
  unmarshalled : codec.unmarshalConfigUpdate configUpdateEnv.configUpdate = .ok configUpdate
  channelId : configUpdate.channelId = vi.channelID
  readSetMapped : mapConfig configUpdate.readSet vi.nameSpace = .ok readSet
  readSetVerified : verifyReadSet vi.configMap readSet = .ok ()
  writeSetMapped : mapConfig configUpdate.writeSet vi.nameSpace = .ok writeSet
  signed : configUpdateEnvelopeAsSignedData codec configUpdateEnv = .ok signedData
  deltaSetVerified : verifyDeltaSet vi.pm vi.configMap
    (computeDeltaSet readSet writeSet) signedData = .ok ()
  fullVerified : verifyFullProposedConfig writeSet
    (computeUpdateResult vi.configMap (computeDeltaSet readSet writeSet)) = .ok ()

variable {codec : ConfigCodec}

theorem authorizeUpdate_eq_ok_iff {vi : ValidatorImpl}
    {configUpdateEnv : ConfigUpdateEnvelope} {fullProposedConfig : ConfigMap} :
    vi.authorizeUpdate codec configUpdateEnv = .ok fullProposedConfig ↔
      ∃ cu readSet wset sd,
        Authorizes codec vi configUpdateEnv cu readSet wset sd ∧
          fullProposedConfig = computeUpdateResult vi.configMap (computeDeltaSet readSet wset) := by
  unfold ValidatorImpl.authorizeUpdate
  constructor
  · intro ht
    obtain ⟨cu, hun, hrs⟩ := of_bind ht
    split_ifs at hrs with hc
    obtain ⟨readSet, hr, hrs⟩ := of_bind hrs
    obtain ⟨_, hrd, hrs⟩ := of_bind hrs
    obtain ⟨wset, hwr, hrs⟩ := of_bind hrs
    obtain ⟨sd, hsg, hrs⟩ := of_bind hrs
    obtain ⟨_, hdl, hrs⟩ := of_bind hrs
    obtain ⟨_, hfl, hpu⟩ := of_bind hrs
    rw [withMessage_eq_ok_iff] at hr hrd hwr hdl hfl
    rw [returned_eq_ok_iff] at hun
    exact ⟨cu, readSet, wset, sd,
      ⟨hun, not_not.mp hc, hr, hrd, hwr, hsg, hdl, hfl⟩, (Except.ok.inj hpu).symm⟩
  · rintro ⟨cu, _, _, _, hat, rfl⟩
    rw [returned_eq_ok_iff.mpr hat.unmarshalled]
    change (if cu.channelId ≠ vi.channelID then _ else _) = _
    rw [if_neg (not_not.mpr hat.channelId), withMessage_eq_ok_iff.mpr hat.readSetMapped]
    apply bind_of_ok rfl ?_
    apply bind_of_ok (withMessage_eq_ok_iff.mpr hat.readSetVerified) ?_
    apply bind_of_ok (withMessage_eq_ok_iff.mpr hat.writeSetMapped) ?_
    apply bind_of_ok hat.signed ?_
    apply bind_of_ok (withMessage_eq_ok_iff.mpr hat.deltaSetVerified) ?_
    exact bind_of_ok (withMessage_eq_ok_iff.mpr hat.fullVerified) rfl

theorem proposeConfigUpdate_eq_ok_iff {vi : ValidatorImpl} {configtx : Envelope}
    {configEnvelope : Multichannel.ConfigEnvelope Config} :
    vi.proposeConfigUpdate codec configtx = .ok configEnvelope ↔
      ∃ configUpdateEnv cm channelGroup,
        codec.envelopeToConfigUpdate configtx = .ok configUpdateEnv ∧
          vi.authorizeUpdate codec configUpdateEnv = .ok cm ∧
          configMapToConfig cm vi.nameSpace = .ok channelGroup ∧
          configEnvelope =
            { config := some { sequence := uint64 (vi.sequence + 1)
                               channelGroup := some channelGroup }
              lastUpdate := some configtx } := by
  unfold ValidatorImpl.proposeConfigUpdate
  constructor
  · intro hpr
    obtain ⟨configUpdateEnv, he, hrs⟩ := of_bind hpr
    obtain ⟨cm, hat, hrs⟩ := of_bind hrs
    obtain ⟨channelGroup, hg, hpu⟩ := of_bind hrs
    rw [withMessage_eq_ok_iff] at he hat hg
    exact ⟨configUpdateEnv, cm, channelGroup, returned_eq_ok_iff.mp he, hat, hg,
      (Except.ok.inj hpu).symm⟩
  · rintro ⟨_, _, _, he, hat, hg, rfl⟩
    apply bind_of_ok (withMessage_eq_ok_iff.mpr (returned_eq_ok_iff.mpr he)) ?_
    apply bind_of_ok (withMessage_eq_ok_iff.mpr hat) ?_
    exact bind_of_ok (withMessage_eq_ok_iff.mpr hg) rfl

end FabricSequencer
