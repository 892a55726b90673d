import FabricSequencer.MaintenanceFilter
import FabricSequencer.ConfigUpdateAgreement

/-!
# Entering and leaving maintenance mode

An update that changes the state of the consensus type and passes the
maintenance filter can still change other elements: policies of the channel
and of its orderer group, the members and the `mod_policy` of these two groups,
and the `mod_policy` of the consensus type.  Elements whose `mod_policy` was
unset get one.  Nothing else can change.
-/

namespace FabricSequencer.Channelconfig

open Option ConfigGroup ConfigItem OrdererConfig

/-! ## The proposed configuration -/

variable (configUpdate cu : ConfigUpdate)

def written (position : ConfigPath) : Option ConfigItem :=
  (configUpdate.writeSet.bind fun group => group.element position).filter fun item =>
      !((configUpdate.readSet.bind fun group => group.element position).any
        fun read => read.version == item.version)

variable {item : ConfigItem}

theorem written_eq_some_iff {cu : ConfigUpdate} {pos : ConfigPath} :
    written cu pos = some item ↔
      (cu.writeSet.bind fun g => g.element pos) = some item ∧ ∀ read, (cu.readSet.bind fun g =>
          g.element pos) = some read → read.version ≠ item.version := by
  rw [written, filter_eq_some_iff]
  cases (cu.readSet.bind fun g => g.element pos) with
  | none | some => simp

theorem get_mapConfig_option {g : Option ConfigGroup} {root : GoString}
    {configMap : ConfigMap} (hm : mapConfig g root = .ok configMap) {pos : ConfigPath}
    (hok : ∀ nm ∈ pos.names, validateConfigID nm = .ok ()) :
    configMap.get (pos.fqPath root) =
      (g.bind fun g => g.element pos).map (comparableAt [root] pos) := by
  cases g with
  | none =>
    cases hm
    rfl
  | some => exact get_mapConfig hm hok

section Proposed

variable {codec : ConfigCodec}
  {vi : ValidatorImpl} {cur next : ConfigGroup} {configUpdateEnv : ConfigUpdateEnvelope}
  {cu : ConfigUpdate} {readSet writeSet : ConfigMap}
  {sd : List SignedData} {pos : ConfigPath} (hcur : vi.configProto.channelGroup = some cur)
  (hat : Authorizes codec vi configUpdateEnv cu readSet writeSet sd)
  (hreb : configMapToConfig (computeUpdateResult vi.configMap
    (computeDeltaSet readSet writeSet)) vi.nameSpace = .ok next)

include hat

theorem get_computeDeltaSet_at (hok : ∀ nm ∈ pos.names, validateConfigID nm = .ok ()) :
    (computeDeltaSet readSet writeSet).get (pos.fqPath vi.nameSpace) =
      (written cu pos).map (comparableAt [vi.nameSpace] pos) := by
  ext cg
  rw [get_computeDeltaSet, get_mapConfig_option hat.readSetMapped hok,
    get_mapConfig_option hat.writeSetMapped hok, map_eq_some_iff, map_eq_some_iff]
  simp only [written_eq_some_iff]
  constructor
  · rintro ⟨⟨item, hit, rfl⟩, hrd⟩
    refine ⟨item, ⟨hit, ?_⟩, rfl⟩
    intro read hg
    have hv := hrd (comparableAt [vi.nameSpace] pos read) (by rw [hg]; rfl)
    rwa [comparableAt_item, comparableAt_item] at hv
  rintro ⟨item, ⟨hit, hrd⟩, rfl⟩
  refine ⟨⟨item, hit, rfl⟩, ?_⟩
  intro _ hr
  obtain ⟨read, hg, rfl⟩ := map_eq_some_iff.mp hr
  rw [comparableAt_item, comparableAt_item]
  exact hrd read hg

theorem modPolicy_of_written (hok : ∀ nm ∈ pos.names, validateConfigID nm = .ok ())
    (hit : written cu pos = some item) : item.modPolicy ≠ [] := by
  have hg := get_computeDeltaSet_at hat hok
  rw [hit, map_some] at hg
  have ha := (verifyDeltaSet_iff.mp hat.deltaSetVerified).2 _ _ hg
  have hmd := ne_nil_of_validateModPolicy ha.modPolicy
  rwa [comparableAt_item] at hmd

include hcur

theorem get_proposed_at (hok : ∀ name ∈ pos.names, validateConfigID name = .ok ()) :
    (computeUpdateResult vi.configMap (computeDeltaSet readSet writeSet)).get
        (pos.fqPath vi.nameSpace) =
      ((written cu pos).or (cur.element pos)).map (comparableAt [vi.nameSpace] pos) := by
  rw [get_computeUpdateResult, get_computeDeltaSet_at hat hok, get_configMap hcur hok]
  cases written cu pos <;> rfl

include hreb

/-- An element of the next configuration is the written or else the current
one, with its `mod_policy` settled. -/
theorem element_next (hit : next.element pos = some item) :
    ∃ source, (written cu pos).or (cur.element pos) = some source ∧
      item.own = settled (computeUpdateResult vi.configMap
        (computeDeltaSet readSet writeSet)) source.own := by
  have hok := validNames_updated hcur hat hreb pos item hit
  rw [configMapToConfig, ← joinedPath_singleton] at hreb
  obtain ⟨_, hg, hw⟩ := element_recurseConfigMap_settled hreb hit
  rw [keyBelow_root, get_proposed_at hcur hat hok, map_eq_some_iff] at hg
  obtain ⟨source, hs, rfl⟩ := hg
  rw [comparableAt_item] at hw
  exact ⟨source, hs, hw⟩

theorem isSome_element_next
    (hsh : ∀ pos item old, written cu pos = some item →
      cur.element pos = some old → item.SameShape old)
    (pos : ConfigPath) :
    (next.element pos).isSome = (cur.element pos).isSome := by
  obtain ⟨-, hnm, -⟩ := mapConfig_eq_ok_iff.mp (ValidatorImpl.mapped hcur)
  have hhl : HoldsShape (computeUpdateResult vi.configMap
      (computeDeltaSet readSet writeSet)) [vi.nameSpace] cur := by
    intro pos old hl
    rw [keyBelow_root, get_proposed_at hcur hat (hnm pos old hl), hl]
    cases hwr : written cu pos with
    | none =>
      refine ⟨_, rfl, ?_⟩
      rw [comparableAt_item]
      exact sameShape_of_content_eq rfl
    | some item =>
      refine ⟨_, rfl, ?_⟩
      rw [comparableAt_item]
      exact hsh pos item old hwr hl
  obtain ⟨_, hr, hsm⟩ := exists_recurseConfigMap_of_shape hhl
  rw [configMapToConfig, ← joinedPath_singleton, hr] at hreb
  cases hreb
  exact hsm pos

end Proposed

/-! ## What can change -/

theorem exists_value_of_element {g : ConfigGroup} {pa : List GoString} {nm : GoString}
    (hel : g.element (.value pa nm) = some item) : ∃ value, item = .configValue value := by
  simp only [ConfigGroup.element, bind_eq_some_iff, map_eq_some_iff] at hel
  obtain ⟨_, -, value, -, rfl⟩ := hel
  exact ⟨value, rfl⟩

theorem element_ordererValue {g og : ConfigGroup}
    (hg : g.groups.get ordererGroupKey = some og) (nm : GoString) :
    g.element (.value [ordererGroupKey] nm) = (og.values.get nm).map .configValue := by
  have hwithin := element_within g ordererGroupKey (.value [] nm)
  rw [hg, bind_some, element_value_nil] at hwithin
  exact hwithin

def Keeps (current : ConfigGroup) (position : ConfigPath) : Prop :=
  ∀ item old, written configUpdate position = some item →
    current.element position = some old → item.content = old.content

/-- The update writes nothing but another value for the consensus type, and no
element of the current configuration lacks a `mod_policy`. -/
structure WritesValueOnly (current : ConfigGroup) : Prop where
  channel : Keeps configUpdate current (.group [])
  channelPolicies : ∀ name, Keeps configUpdate current (.policy [] name)
  orderer : Keeps configUpdate current (.group [ordererGroupKey])
  ordererPolicies : ∀ name, Keeps configUpdate current (.policy [ordererGroupKey] name)
  consensusType : ∀ item old,
    written configUpdate consensusTypePath = some item →
      current.element consensusTypePath = some old → item.modPolicy = old.modPolicy
  modPolicies : ∀ position old, current.element position = some old → old.modPolicy ≠ []

/-- Up to versions the configurations differ in the state of the consensus type
and in nothing else. -/
structure OnlyStateChanges (codec : ChannelCodec) (current next : ConfigGroup) : Prop where
  others : ∀ position, position ≠ consensusTypePath →
    (next.element position).map ConfigItem.content =
      (current.element position).map ConfigItem.content
  consensusType : ∃ old new before after,
    current.element consensusTypePath = some (.configValue old) ∧
      next.element consensusTypePath = some (.configValue new) ∧
      new.modPolicy = old.modPolicy ∧
      codec.unmarshalConsensusType old.value = .ok before ∧
      codec.unmarshalConsensusType new.value = .ok after ∧
      after.type = before.type ∧ after.metadata = before.metadata

structure InspectedUpdate (codec : ConfigCodec) (vi : ValidatorImpl)
    (current next : ConfigGroup) (configUpdateEnv : ConfigUpdateEnvelope)
    (configUpdate : ConfigUpdate) (readSet writeSet : ConfigMap)
    (signedData : List SignedData) : Prop where
  held : vi.configProto.channelGroup = some current
  nameSpace : vi.nameSpace = rootGroupKey
  authorizes : Authorizes codec vi configUpdateEnv configUpdate readSet writeSet signedData
  rebuilt : configMapToConfig (computeUpdateResult vi.configMap
    (computeDeltaSet readSet writeSet)) vi.nameSpace = .ok next
  inspected : ∀ position item,
    (configUpdate.writeSet.bind fun group => group.element position) =
      some item → Inspected position
  capabilities : ∃ item, current.element (.value [ordererGroupKey] capabilitiesKey) = some item

namespace InspectedUpdate

variable {codec : ConfigCodec}
  {vi : ValidatorImpl} {cur next : ConfigGroup} {configUpdateEnv : ConfigUpdateEnvelope}
  {cu : ConfigUpdate} {readSet writeSet : ConfigMap} {sd : List SignedData}
  (hupd : InspectedUpdate codec vi cur next configUpdateEnv cu readSet writeSet sd)

include hupd

theorem validNames : ValidNames cur :=
  (mapConfig_eq_ok_iff.mp (ValidatorImpl.mapped hupd.held)).2.1

variable {pos : ConfigPath}

theorem inspected_of_written (hit : written cu pos = some item) : Inspected pos :=
  hupd.inspected pos item (written_eq_some_iff.mp hit).1

theorem modPolicy_next (hit : next.element pos = some item) : item.modPolicy ≠ [] := by
  obtain ⟨_, -, hown⟩ := element_next hupd.held hupd.authorizes hupd.rebuilt hit
  obtain ⟨found, hfn⟩ := hupd.capabilities
  have hk : (ConfigPath.value [ordererGroupKey] capabilitiesKey).fqPath
      vi.nameSpace = hackyFixOrdererCapabilities := by
    rw [hupd.nameSpace]
    decide
  have hg := get_proposed_at hupd.held hupd.authorizes (hupd.validNames _ found hfn)
  rw [hk] at hg
  have hsm : ((computeUpdateResult vi.configMap
      (computeDeltaSet readSet writeSet)).get hackyFixOrdererCapabilities).isSome = true := by
    rw [hg, hfn]
    cases written cu (.value [ordererGroupKey] capabilitiesKey) <;> rfl
  have hs : ∀ fields : OwnFields,
      (settled (computeUpdateResult vi.configMap
        (computeDeltaSet readSet writeSet)) fields).modPolicy = fixModPolicy fields.modPolicy := by
    intro fields
    cases fields <;> simp [settled, settledModPolicy, hsm,
      OwnFields.withModPolicy, OwnFields.modPolicy]
  rw [← modPolicy_own, hown, hs, fixModPolicy]
  split_ifs with hnil
  · decide
  · exact hnil

theorem content_next_of_written {item new : ConfigItem} (hit : written cu pos = some item)
    (hn : next.element pos = some new) : new.own = item.own := by
  have hok := validNames_updated hupd.held hupd.authorizes hupd.rebuilt pos new hn
  obtain ⟨_, hr, hw⟩ := element_next hupd.held hupd.authorizes hupd.rebuilt hn
  rw [hit, some_or] at hr
  cases hr
  have hs := modPolicy_of_written hupd.authorizes hok hit
  rw [← modPolicy_own] at hs
  rw [hw, settled_eq_iff.mpr (.inr hs)]

theorem writesValueOnly {channelCodec : ChannelCodec}
    (hon : OnlyStateChanges channelCodec cur next) :
    WritesValueOnly cu cur := by
  have hkp : ∀ pos, pos ≠ consensusTypePath → Keeps cu cur pos := by
    intro pos hp _ _ hit hl
    have heq := hon.others pos hp
    rw [hl, map_some, map_eq_some_iff] at heq
    obtain ⟨_, hn, hcn⟩ := heq
    rw [← hcn, content, content, hupd.content_next_of_written hit hn]
  obtain ⟨_, newValue, _, _, hol, hnw, hmd, -⟩ := hon.consensusType
  refine ⟨hkp _ (by decide), fun nm => hkp _ ?_, hkp _ (by decide), fun nm => hkp _ ?_, ?_, ?_⟩
  · simp [consensusTypePath]
  · simp [consensusTypePath]
  · intro _ _ hit hl
    rw [hol] at hl
    cases hl
    have hw := hupd.content_next_of_written hit hnw
    rw [← modPolicy_own, ← hw, modPolicy_own]
    exact hmd
  intro pos _ hl
  by_cases hp : pos = consensusTypePath
  · subst hp
    rw [hol] at hl
    cases hl
    have hs := hupd.modPolicy_next hnw
    change newValue.modPolicy ≠ [] at hs
    rwa [hmd] at hs
  · have heq := hon.others pos hp
    rw [hl, map_some, map_eq_some_iff] at heq
    obtain ⟨_, hn, hcn⟩ := heq
    have hs := hupd.modPolicy_next hn
    have hel := congrArg OwnFields.modPolicy hcn
    rw [content, content, modPolicy_withVersion, modPolicy_withVersion, modPolicy_own,
      modPolicy_own] at hel
    rwa [hel] at hs

theorem keeps_of_writesValueOnly (hon : WritesValueOnly cu cur) (hp : pos ≠ consensusTypePath) :
    Keeps cu cur pos := by
  intro item old hit hl
  rcases hupd.inspected_of_written hit with rfl | ⟨nm, rfl⟩ | rfl | ⟨nm, rfl⟩ | hconsensus
  · exact hon.channel item old hit hl
  · exact hon.channelPolicies nm item old hit hl
  · exact hon.orderer item old hit hl
  · exact hon.ordererPolicies nm item old hit hl
  · exact absurd hconsensus hp

theorem isSome_next (hon : WritesValueOnly cu cur) (pos : ConfigPath) :
    (next.element pos).isSome = (cur.element pos).isSome := by
  apply isSome_element_next hupd.held hupd.authorizes hupd.rebuilt
  intro pos item old hit hl
  by_cases hp : pos = consensusTypePath
  · subst hp
    obtain ⟨_, rfl⟩ := exists_value_of_element hl
    obtain ⟨_, -, hel⟩ := bind_eq_some_iff.mp (written_eq_some_iff.mp hit).1
    obtain ⟨_, rfl⟩ := exists_value_of_element hel
    trivial
  · exact sameShape_of_content_eq (hupd.keeps_of_writesValueOnly hon hp item old hit hl)

theorem own_next_of_not_written (hs : ∀ pos old, cur.element pos = some old → old.modPolicy ≠ [])
    {old new : ConfigItem} (hno : written cu pos = none)
    (hl : cur.element pos = some old) (hn : next.element pos = some new) : new.own = old.own := by
  obtain ⟨_, hr, hw⟩ := element_next hupd.held hupd.authorizes hupd.rebuilt hn
  rw [hno, none_or, hl] at hr
  cases hr
  have hol := hs pos old hl
  rw [← modPolicy_own] at hol
  rw [hw, settled_eq_iff.mpr (.inr hol)]

theorem others_of_writesValueOnly (hon : WritesValueOnly cu cur) (hp : pos ≠ consensusTypePath) :
    (next.element pos).map content = (cur.element pos).map content := by
  have hsm := hupd.isSome_next hon pos
  cases hl : cur.element pos with
  | none =>
    rw [hl, isSome_none, isSome_eq_false_iff, isNone_iff_eq_none] at hsm
    rw [hsm]
  | some old =>
    rw [hl, isSome_some, isSome_iff_exists] at hsm
    obtain ⟨_, hn⟩ := hsm
    rw [hn, map_some, map_some]
    cases hwr : written cu pos with
    | none =>
      rw [content, content, hupd.own_next_of_not_written hon.modPolicies hwr hl hn]
    | some item =>
      have hkp := hupd.keeps_of_writesValueOnly hon hp item old hwr hl
      rw [← hkp, content, content, hupd.content_next_of_written hwr hn]

theorem modPolicy_consensusType (hon : WritesValueOnly cu cur)
    {old new : ConfigItem} (hl : cur.element consensusTypePath = some old)
    (hn : next.element consensusTypePath = some new) : new.modPolicy = old.modPolicy := by
  rw [← modPolicy_own, ← modPolicy_own]
  cases hwr : written cu consensusTypePath with
  | none => rw [hupd.own_next_of_not_written hon.modPolicies hwr hl hn]
  | some item =>
    rw [hupd.content_next_of_written hwr hn, modPolicy_own, modPolicy_own]
    exact hon.consensusType item old hwr hl

end InspectedUpdate

theorem consensusType_values {codec : ChannelCodec} {cur next og nextOrdererGroup : ConfigGroup}
    {capabilities nextCapabilities : List GoString}
    {ordererConfig nextOrdererConfig : OrdererConfig}
    (hg : cur.groups.get ordererGroupKey = some og)
    (hng : next.groups.get ordererGroupKey = some nextOrdererGroup)
    (ho : newOrdererConfig codec og capabilities = .ok ordererConfig)
    (hnx : newOrdererConfig codec nextOrdererGroup nextCapabilities = .ok nextOrdererConfig)
    (hs : nextOrdererConfig.consensusState ≠ ordererConfig.consensusState)
    (hsm : (next.element consensusTypePath).isSome = (cur.element consensusTypePath).isSome) :
    ∃ old new, cur.element consensusTypePath = some (.configValue old) ∧
      next.element consensusTypePath = some (.configValue new) ∧
      codec.unmarshalConsensusType old.value = .ok ordererConfig.protos.consensusType ∧
      codec.unmarshalConsensusType new.value = .ok nextOrdererConfig.protos.consensusType := by
  rw [consensusTypePath, element_ordererValue hg, element_ordererValue hng] at *
  rcases consensusType_of_newOrdererConfig ho with ⟨hno, hf⟩ | ⟨old, hl, hd⟩
  · rcases consensusType_of_newOrdererConfig hnx with ⟨-, hnd⟩ | ⟨new, hn, -⟩
    · refine absurd ?_ hs
      rw [consensusState, consensusState, hnd, hf]
    · rw [hno, hn] at hsm
      cases hsm
  · rcases consensusType_of_newOrdererConfig hnx with ⟨hno, -⟩ | ⟨new, hn, hx⟩
    · rw [hl, hno] at hsm
      cases hsm
    · exact ⟨old, new, by rw [hl]; rfl, by rw [hn]; rfl, hd, hx⟩

/-- An update that enters or leaves maintenance mode and passes the filter
changes nothing but the state exactly if it writes nothing but another value
for the consensus type and no `mod_policy` was unset. -/
theorem inspect_onlyStateChanges_iff (mf : MaintenanceFilter) {current : Config}
    {bundle nextBundle : Bundle} {ordererConfig nextOrdererConfig : OrdererConfig}
    (hbundle : newBundle mf.codec mf.channelID (some current) = .ok bundle)
    (horderer : bundle.ordererConfig = some ordererConfig)
    (hmigration : ordererConfig.consensusTypeMigration = true)
    {configtx : Envelope} {configEnvelope : Multichannel.ConfigEnvelope Config}
    (hpropose : bundle.configtxManager.proposeConfigUpdate mf.configCodec
      configtx = .ok configEnvelope)
    (hinspect : mf.inspect configEnvelope ordererConfig = .ok ())
    (hnextBundle : newBundle mf.codec mf.channelID configEnvelope.config = .ok nextBundle)
    (hnextOrderer : nextBundle.ordererConfig = some nextOrdererConfig)
    (hstate : nextOrdererConfig.consensusState ≠ ordererConfig.consensusState) :
    ∃ currentGroup config nextGroup configUpdateEnv configUpdate,
      current.channelGroup = some currentGroup ∧ configEnvelope.config = some config ∧
        config.channelGroup = some nextGroup ∧
        mf.configCodec.envelopeToConfigUpdate configtx = .ok configUpdateEnv ∧
        mf.configCodec.unmarshalConfigUpdate configUpdateEnv.configUpdate = .ok configUpdate ∧
        (OnlyStateChanges mf.codec currentGroup nextGroup ↔
          WritesValueOnly configUpdate currentGroup) := by
  obtain ⟨_, currentGroup, hcur, hcr, hchn, hpr, hnm, -⟩ := newBundle_eq_ok hbundle
  cases hcur
  obtain ⟨_, capabilities, hord, hor⟩ := ordererConfig_of_newChannelConfig hchn horderer
  obtain ⟨configUpdateEnv, _, next, henv, hath, hrbl, rfl⟩ :=
    proposeConfigUpdate_eq_ok_iff.mp hpropose
  obtain ⟨configUpdate, readSet, writeSet, sd, hat, rfl⟩ := authorizeUpdate_eq_ok_iff.mp hath
  obtain ⟨_, _, hcfg, hng, hnc, -, -⟩ := newBundle_eq_ok hnextBundle
  cases hcfg
  cases hng
  obtain ⟨_, _, hnxt, hnx⟩ := ordererConfig_of_newChannelConfig hnc hnextOrderer
  obtain ⟨hens, hty, hmt⟩ := inspectState_of_inspect hinspect
    hmigration hnextBundle hnextOrderer hstate rfl
  have hcp : ∃ item, currentGroup.element
      (.value [ordererGroupKey] capabilitiesKey) = some item := by
    rcases capabilities_of_newOrdererConfig hor with ⟨-, hnil⟩ | ⟨value, hval, -⟩
    · rw [consensusTypeMigration, hnil] at hmigration
      cases hmigration
    · rw [element_ordererValue hord, hval]
      exact ⟨_, rfl⟩
  have hhl : bundle.configtxManager.configProto.channelGroup = some currentGroup := by
    rw [hpr]
    exact hcr
  have hupd : InspectedUpdate mf.configCodec bundle.configtxManager
      currentGroup next configUpdateEnv configUpdate readSet writeSet
      sd :=
    { held := hhl
      nameSpace := hnm
      authorizes := hat
      rebuilt := hrbl
      inspected := fun _ _ hel =>
        inspected_of_ensureConsensusTypeChangeOnly hens henv hat.unmarshalled hel
      capabilities := hcp }
  refine ⟨currentGroup, _, next, configUpdateEnv, configUpdate, hcr,
    rfl, rfl, henv, hat.unmarshalled, hupd.writesValueOnly, ?_⟩
  intro hon
  obtain ⟨old, new, hold, hnew, hpre, haf⟩ := consensusType_values hord hnxt hor hnx hstate
    (hupd.isSome_next hon consensusTypePath)
  exact {
    others := fun pos hpos =>
      hupd.others_of_writesValueOnly hon hpos
    consensusType := ⟨old, new, _, _, hold, hnew,
      hupd.modPolicy_consensusType hon hold hnew, hpre, haf, hty,
      hmt⟩ }

/-! ## An update that also changes a policy -/

structure InspectedRun where
  bundle : Bundle
  ordererConfig : OrdererConfig
  configEnvelope : Multichannel.ConfigEnvelope Config
  nextBundle : Bundle
  nextOrdererConfig : OrdererConfig

def inspectedRun (mf : MaintenanceFilter) (current : Config)
    (configtx : Envelope) : Option InspectedRun := do
  let bundle ← (newBundle mf.codec mf.channelID (some current)).toOption
  let ordererConfig ← bundle.ordererConfig
  let configEnvelope ← (bundle.configtxManager.proposeConfigUpdate mf.configCodec configtx).toOption
  (mf.inspect configEnvelope ordererConfig).toOption
  let nextBundle ← (newBundle mf.codec mf.channelID configEnvelope.config).toOption
  let nextOrdererConfig ← nextBundle.ordererConfig
  some { bundle := bundle, ordererConfig := ordererConfig
         configEnvelope := configEnvelope, nextBundle := nextBundle
         nextOrdererConfig := nextOrdererConfig }

theorem inspectedRun_eq_some {mf : MaintenanceFilter} {cur : Config}
    {configtx : Envelope} {run : InspectedRun} (hr : inspectedRun mf cur configtx = some run) :
    newBundle mf.codec mf.channelID (some cur) = .ok run.bundle ∧
      run.bundle.ordererConfig = some run.ordererConfig ∧
      run.bundle.configtxManager.proposeConfigUpdate mf.configCodec configtx =
        .ok run.configEnvelope ∧
      mf.inspect run.configEnvelope run.ordererConfig = .ok () ∧
      newBundle mf.codec mf.channelID run.configEnvelope.config = .ok run.nextBundle ∧
      run.nextBundle.ordererConfig = some run.nextOrdererConfig := by
  unfold inspectedRun at hr
  obtain ⟨_, hb, hr⟩ := bind_eq_some_iff.mp hr
  obtain ⟨_, ho, hr⟩ := bind_eq_some_iff.mp hr
  obtain ⟨_, hpr, hr⟩ := bind_eq_some_iff.mp hr
  obtain ⟨_, hn, hr⟩ := bind_eq_some_iff.mp hr
  obtain ⟨_, hnx, hr⟩ := bind_eq_some_iff.mp hr
  obtain ⟨_, hx, hr⟩ := bind_eq_some_iff.mp hr
  cases hr
  exact ⟨Except.eq_ok_of_toOption hb, ho, Except.eq_ok_of_toOption hpr, Except.eq_ok_of_toOption hn,
    Except.eq_ok_of_toOption hnx, hx⟩

def normalState : Bytes := [10, 8] ++ ascii "etcdraft"

def maintenanceState : Bytes := normalState ++ [24, 1]

def wireCapabilities : Bytes := [10, 10, 10, 6] ++ ascii "V1_4_2" ++ [18, 0]

def sampleValue (value : Bytes) : ConfigValue where
  version := 0
  value := value
  modPolicy := adminsPolicy

def writersPolicy (version : ℕ) (value : Bytes) : ConfigPolicy where
  version := version
  policy := some { type := 3, value := value }
  modPolicy := adminsPolicy

def anyWriters : Bytes := [10, 7] ++ ascii "Writers"

def majorityWriters : Bytes := anyWriters ++ [16, 2]

def ordererSample : Config where
  sequence := 3
  channelGroup := some (ConfigGroup.literal 0
    (oneEntry ordererGroupKey (ConfigGroup.literal 0 SortedMap.empty
      ((((oneEntry consensusTypeKey (sampleValue normalState)).insert
        batchSizeKey (sampleValue [8, 10, 16, 99, 24, 9])).insert
        batchTimeoutKey (sampleValue [10, 2, 50, 115])).insert
        capabilitiesKey (sampleValue wireCapabilities))
      (oneEntry (ascii "Writers") (writersPolicy 0 anyWriters))
      adminsPolicy))
    (((oneEntry hashingAlgorithmKey (sampleValue ([10, 6] ++ ascii "SHA256"))).insert
      blockDataHashingStructureKey (sampleValue [8, 255, 255, 255, 255, 15])).insert
      capabilitiesKey (sampleValue wireCapabilities))
    SortedMap.empty adminsPolicy)

def sampleChannelCodec : ChannelCodec where
  unmarshalConsensusType value :=
    if value = normalState then .ok ⟨ascii "etcdraft", [], .normal⟩
    else if value = maintenanceState then
      .ok ⟨ascii "etcdraft", [], .maintenance⟩
    else .error "proto: cannot parse invalid wire-format data"
  unmarshalBatchSize _ := .ok ⟨10, 99, 9⟩
  unmarshalBatchTimeout _ := .ok (ascii "2s")
  unmarshalKafkaBrokers _ := .ok ()
  unmarshalChannelRestrictions _ := .ok ()
  unmarshalOrderers _ := .ok []
  unmarshalCapabilities _ := .ok [ascii "V1_4_2"]
  unmarshalHashingAlgorithm _ := .ok (ascii "SHA256")
  unmarshalBlockDataHashingStructure _ := .ok (2 ^ 32 - 1)
  unmarshalOrdererAddresses _ := .ok []
  unmarshalConsortium _ := .ok ()
  parseDuration _ := .ok 2000000000
  newOrdererOrgConfig _ _ _ := .ok []
  newApplicationConfig _ _ := .ok ()
  newConsortiumsConfig _ _ := .ok ()
  createMSPManager _ := .ok ()
  newManagerImpl _ := .ok acceptingManager

/-- An update to maintenance state that also writes the given policies of the
orderer group. -/
def maintenanceUpdate (policies : SortedMap GoString ConfigPolicy) : ConfigUpdate where
  channelId := ascii "ch"
  readSet := some (ConfigGroup.literal 0
    (oneEntry ordererGroupKey (ConfigGroup.literal 0 SortedMap.empty
      SortedMap.empty SortedMap.empty []))
    SortedMap.empty SortedMap.empty [])
  writeSet := some (ConfigGroup.literal 0
    (oneEntry ordererGroupKey (ConfigGroup.literal 0 SortedMap.empty
      (oneEntry consensusTypeKey
        { version := 1, value := maintenanceState, modPolicy := adminsPolicy })
      policies []))
    SortedMap.empty SortedMap.empty [])

def sampleFilter : MaintenanceFilter where
  channelID := ascii "ch"
  codec := sampleChannelCodec
  configCodec := sampleCodec configUpdate
  unmarshalOptions value := .ok value
  configFromMetadataOptions _ := .ok ()
  raftConsenters _ := []

def emptyEnvelope : Envelope := { payload := [], signature := [] }

/-- What a configuration has of the policy `Writers` of its orderer group. -/
def ordererWriters (config : Option Config) : Option OwnFields :=
  ((config.bind Config.channelGroup).bind fun group =>
    group.element (.policy [ordererGroupKey] (ascii "Writers"))).map ConfigItem.content

/-- A change of the state passes the filter together with a change of the
policy `Writers` of the orderer group. -/
theorem inspect_accepts_policy_change :
    ∃ run config nextGroup,
      inspectedRun
          (sampleFilter (maintenanceUpdate
            (oneEntry (ascii "Writers") (writersPolicy 1 majorityWriters))))
          ordererSample emptyEnvelope = some run ∧
        run.ordererConfig.consensusTypeMigration = true ∧
        run.nextOrdererConfig.consensusState ≠ run.ordererConfig.consensusState ∧
        run.configEnvelope.config = some config ∧
        config.channelGroup = some nextGroup ∧
        ∀ currentGroup, ordererSample.channelGroup = some currentGroup →
          ¬ OnlyStateChanges sampleChannelCodec currentGroup nextGroup := by
  have hany : (inspectedRun
      (sampleFilter (maintenanceUpdate
        (oneEntry (ascii "Writers") (writersPolicy 1 majorityWriters))))
      ordererSample emptyEnvelope).any (fun run =>
        run.ordererConfig.consensusTypeMigration &&
          decide (run.nextOrdererConfig.consensusState ≠ run.ordererConfig.consensusState) &&
          decide (ordererWriters run.configEnvelope.config ≠
            ordererWriters (some ordererSample))) = true := by
    decide +kernel
  obtain ⟨run, hrun, hchc⟩ := (any_eq_true _ _).mp hany
  simp only [Bool.and_eq_true, decide_eq_true_eq] at hchc
  obtain ⟨⟨hmg, hs⟩, hwriters⟩ := hchc
  obtain ⟨-, -, -, -, hnx, -⟩ := inspectedRun_eq_some hrun
  obtain ⟨config, nextGroup, hcfg, hgrp, -⟩ := newBundle_eq_ok hnx
  refine ⟨run, config, nextGroup, hrun, hmg, hs, hcfg, hgrp, ?_⟩
  intro _ hcur hon
  have heq := hon.others (.policy [ordererGroupKey] (ascii "Writers")) (by simp [consensusTypePath])
  apply hwriters
  rw [ordererWriters, ordererWriters, hcfg, bind_some, bind_some, hgrp, hcur, bind_some, bind_some]
  exact heq

theorem inspect_onlyStateChanges_iff_sample :
    ∃ run currentGroup config nextGroup configUpdateEnv configUpdate,
      inspectedRun (sampleFilter (maintenanceUpdate SortedMap.empty))
          ordererSample emptyEnvelope = some run ∧
        ordererSample.channelGroup = some currentGroup ∧
        run.configEnvelope.config = some config ∧
        config.channelGroup = some nextGroup ∧
        (sampleCodec (maintenanceUpdate SortedMap.empty)).envelopeToConfigUpdate
          emptyEnvelope = .ok configUpdateEnv ∧
        (sampleCodec (maintenanceUpdate SortedMap.empty)).unmarshalConfigUpdate
          configUpdateEnv.configUpdate = .ok configUpdate ∧
        (OnlyStateChanges sampleChannelCodec currentGroup nextGroup ↔
          WritesValueOnly configUpdate currentGroup) := by
  have hany : (inspectedRun (sampleFilter (maintenanceUpdate SortedMap.empty))
      ordererSample emptyEnvelope).any (fun run =>
        run.ordererConfig.consensusTypeMigration &&
          decide (run.nextOrdererConfig.consensusState ≠
            run.ordererConfig.consensusState)) = true := by
    decide +kernel
  obtain ⟨run, hrun, hchc⟩ := (any_eq_true _ _).mp hany
  simp only [Bool.and_eq_true, decide_eq_true_eq] at hchc
  obtain ⟨hbnd, hord, hpr, hins, hnx, hnxt⟩ := inspectedRun_eq_some hrun
  obtain ⟨currentGroup, config, nextGroup, configUpdateEnv, configUpdate,
    hres⟩ := inspect_onlyStateChanges_iff
      (sampleFilter (maintenanceUpdate SortedMap.empty)) hbnd hord
      hchc.1 hpr hins hnx hnxt hchc.2
  exact ⟨run, currentGroup, config, nextGroup, configUpdateEnv, configUpdate, hrun, hres⟩

/-! ## Migration to BFT -/

namespace MaintenanceFilter

theorem sameConsenter_iff {raftConsenter bftConsenter : Consenter} :
    sameConsenter raftConsenter bftConsenter = true ↔ raftConsenter = bftConsenter := by
  cases raftConsenter
  cases bftConsenter
  simp only [sameConsenter, Bool.and_eq_true, decide_eq_true_eq, Consenter.mk.injEq]
  tauto

/-- Distinct raft consenters are found among as many BFT consenters, so nothing
of the latter is left over. -/
theorem consenters_eq_of_validateBFTConsenterMapping {mf : MaintenanceFilter}
    {ordererConfig nextOrdererConfig : OrdererConfig}
    (hdist : (mf.raftConsenters ordererConfig.consensusMetadata).Nodup)
    (hvalid : mf.validateBFTConsenterMapping ordererConfig nextOrdererConfig = .ok ()) :
    (mf.raftConsenters ordererConfig.consensusMetadata : Multiset Consenter) =
      nextOrdererConfig.consenters := by
  unfold validateBFTConsenterMapping at hvalid
  dsimp only at hvalid
  split_ifs at hvalid with _ hlen
  rw [Outcome.forM_eq_ok_iff] at hvalid
  have hsub : mf.raftConsenters ordererConfig.consensusMetadata ⊆ nextOrdererConfig.consenters := by
    intro raftConsenter hmem
    have hget := hvalid raftConsenter hmem
    split_ifs at hget with hany
    obtain ⟨bftConsenter, hbft, heq⟩ := List.any_eq_true.mp hany
    rwa [sameConsenter_iff.mp heq]
  have hsbp := hdist.subperm hsub
  exact Multiset.coe_eq_coe.mpr (hsbp.perm_of_length_le (not_not.mp hlen).ge)

def fourConsenters : List Consenter :=
  [7050, 7051, 7052, 7053].map fun port => ⟨ascii "a", port, [1], [2]⟩

def migratingFilter : MaintenanceFilter :=
  { sampleFilter (maintenanceUpdate .empty) with raftConsenters := fun _ => fourConsenters }

/-- The BFT configuration lists them in another order. -/
theorem consenters_eq_of_four_consenters :
    migratingFilter.validateBFTConsenterMapping ⟨{}, .empty⟩
        ⟨{ orderers := fourConsenters.reverse }, .empty⟩ = .ok () ∧
      (migratingFilter.raftConsenters [] : Multiset Consenter) = fourConsenters.reverse :=
  have hvalid : migratingFilter.validateBFTConsenterMapping ⟨{}, .empty⟩
      ⟨{ orderers := fourConsenters.reverse }, .empty⟩ = .ok () := rfl
  have hdistinct : fourConsenters.Nodup := by simp [fourConsenters]
  ⟨hvalid, consenters_eq_of_validateBFTConsenterMapping hdistinct hvalid⟩

end MaintenanceFilter

end FabricSequencer.Channelconfig
