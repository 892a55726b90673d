import FabricSequencer.ChannelBundle
import FabricSequencer.ConfigUpdateSoundness

/-!
# The maintenance filter

A channel enters and leaves maintenance mode by an update of its consensus
type.  The filter looks at the groups and values that such an update writes.
It does not look at policies, at the `mod_policy` of an element, or at the
versions of the groups, with which an update changes their members.
-/

namespace FabricSequencer.Channelconfig

open Option ConfigGroup ConfigPath

/-! ## The filter -/

/-- `MaintenanceFilter` and the functions it calls.  Of the metadata of a BFT
configuration only the verdict is used. -/
structure MaintenanceFilter where
  channelID : GoString
  codec : ChannelCodec
  configCodec : ConfigCodec
  unmarshalOptions : Bytes → Except String Bytes
  configFromMetadataOptions : Bytes → Except String Unit
  /-- The consenters of `etcdraft.ConfigMetadata`, as far as it is decoded. -/
  raftConsenters : Bytes → List Consenter

def bft : GoString := ascii "BFT"

def permittedTargetConsensusTypes : List GoString := [bft]

namespace MaintenanceFilter

variable (mf : MaintenanceFilter)

def ensureConsensusTypeChangeOnly (lastUpdate : Envelope) : Outcome Unit := do
  let configUpdateEnv ← (Outcome.returned
    (mf.configCodec.envelopeToConfigUpdate lastUpdate)).withMessage
      "envelope to config update unmarshalling error"
  let configUpdate ← (Outcome.returned (mf.configCodec.unmarshalConfigUpdate
    configUpdateEnv.configUpdate)).withMessage "config update unmarshalling error"
  match configUpdate.writeSet with
  | none => .error (.panic "invalid memory address or nil pointer dereference")
  | some writeSet =>
    if writeSet.groups.entries.length = 0 then
      .error (.error "config update contains no changes")
    else if writeSet.values.entries.length > 0 then
      .error (.error ("config update contains changes to values in group " ++ printed rootGroupKey))
    else if writeSet.groups.entries.length > 1 then
      .error (.error "config update contains changes to more than one group")
    else
      match writeSet.groups.get ordererGroupKey with
      | none =>
        .error (.error ("update does not contain the " ++ printed ordererGroupKey ++ " group"))
      | some ordGroup =>
        if ordGroup.groups.entries.length > 0 then
          .error (.error ("config update contains changes to groups " ++
            "within the " ++ printed ordererGroupKey ++ " group"))
        else if (ordGroup.values.get consensusTypeKey).isNone then
          .error (.error ("config update does not contain the " ++
            printed consensusTypeKey ++ " value"))
        else if ordGroup.values.entries.length > 1 then
          .error (.error ("config update contain more then just the " ++
            printed consensusTypeKey ++ " value in the " ++
            printed ordererGroupKey ++ " group"))
        else .ok ()

def sameConsenter (raftConsenter bftConsenter : Consenter) : Bool :=
  raftConsenter.port = bftConsenter.port && raftConsenter.host = bftConsenter.host &&
    raftConsenter.serverTlsCert = bftConsenter.serverTlsCert &&
    raftConsenter.clientTlsCert = bftConsenter.clientTlsCert

def validateBFTConsenterMapping (currentOrdererConfig nextOrdererConfig : OrdererConfig) :
    Outcome Unit :=
  let raftConsenters := mf.raftConsenters currentOrdererConfig.consensusMetadata
  let bftConsenters := nextOrdererConfig.consenters
  if bftConsenters.length = 0 then
    .error (.error "Invalid new config: bft consenters are missing")
  else if raftConsenters.length ≠ bftConsenters.length then
    .error (.error ("Invalid new config: the number of bft consenters: " ++
      toString bftConsenters.length ++
      " is not equal to the number of raft consenters: " ++
      toString raftConsenters.length))
  else
    raftConsenters.forM fun raftConsenter =>
      if bftConsenters.any (sameConsenter raftConsenter) then .ok ()
      else
        .error (.error ("No suitable BFT consenter for Raft consenter: " ++
          printed raftConsenter.host))

/-- The rules for a change of `ConsensusType.Type`. -/
def inspectType (ordererConfig nextOrdererConfig : OrdererConfig) : Outcome Unit :=
  let message := "attempted to change consensus type from " ++
    printed ordererConfig.consensusType ++ " to " ++
    printed nextOrdererConfig.consensusType
  if ordererConfig.consensusType = nextOrdererConfig.consensusType then .ok ()
  else if ordererConfig.consensusState = .normal then
    .error (.error (message ++ ", but current config ConsensusType.State is " ++
      "not in maintenance mode"))
  else if nextOrdererConfig.consensusState = .normal then
    .error (.error (message ++ ", but next config ConsensusType.State is " ++
      "not in maintenance mode"))
  else if ¬ permittedTargetConsensusTypes.contains nextOrdererConfig.consensusType then
    .error (.error (message ++ ", transition not supported"))
  else if nextOrdererConfig.consensusType = bft then do
    let updatedMetadata ← (Outcome.returned (mf.unmarshalOptions
      nextOrdererConfig.consensusMetadata)).withMessage
        "failed to unmarshal BFT metadata configuration"
    match mf.configFromMetadataOptions updatedMetadata with
    | .error _ => .error (.error "invalid BFT metadata configuration")
    | .ok () =>
      (mf.validateBFTConsenterMapping ordererConfig
        nextOrdererConfig).withMessage "invalid BFT consenter mapping configuration"
  else .ok ()

def inspectState (lastUpdate : Envelope)
    (ordererConfig nextOrdererConfig : OrdererConfig) : Outcome Unit :=
  if ordererConfig.consensusState = nextOrdererConfig.consensusState then
    .ok ()
  else do
    mf.ensureConsensusTypeChangeOnly lastUpdate
    let states := "ConsensusType.State is changing from " ++
      ordererConfig.consensusState.text ++ " to " ++
      nextOrdererConfig.consensusState.text
    if ordererConfig.consensusType ≠ nextOrdererConfig.consensusType then
      .error (.error ("attempted to change ConsensusType.Type from " ++
        printed ordererConfig.consensusType ++ " to " ++
        printed nextOrdererConfig.consensusType ++ ", but " ++ states))
    else if nextOrdererConfig.consensusMetadata ≠ ordererConfig.consensusMetadata then
      .error (.error ("attempted to change ConsensusType.Metadata, but " ++ states))
    else .ok ()

def inspect (configEnvelope : Multichannel.ConfigEnvelope Config)
    (ordererConfig : OrdererConfig) : Outcome Unit :=
  match configEnvelope.lastUpdate with
  | none => .error (.error "updated config does not include a config update")
  | some lastUpdate => do
      let bundle ← (newBundle mf.codec mf.channelID
        configEnvelope.config).withMessage "failed to parse config"
      match bundle.ordererConfig with
      | none => .error (.error "next config is missing orderer group")
      | some nextOrdererConfig =>
        if ¬ ordererConfig.consensusTypeMigration then
          if nextOrdererConfig.consensusState ≠ .normal then
            .error (.error ("next config attempted to change " ++ "ConsensusType.State to " ++
              nextOrdererConfig.consensusState.text ++
              ", but capability is disabled"))
          else if ordererConfig.consensusType ≠ nextOrdererConfig.consensusType then
            .error (.error ("next config attempted to change " ++ "ConsensusType.Type from " ++
              printed ordererConfig.consensusType ++ " to " ++
              printed nextOrdererConfig.consensusType ++
              ", but capability is disabled"))
          else .ok ()
        else do
          mf.inspectState lastUpdate ordererConfig nextOrdererConfig
          mf.inspectType ordererConfig nextOrdererConfig

end MaintenanceFilter

def consensusTypePath : ConfigPath := .value [ordererGroupKey] consensusTypeKey

def Inspected (position : ConfigPath) : Prop :=
  position = .group [] ∨ (∃ name, position = .policy [] name) ∨
    position = .group [ordererGroupKey] ∨
    (∃ name, position = .policy [ordererGroupKey] name) ∨
    position = consensusTypePath

theorem get_eq_none_of_length {V : Type} {map : SortedMap GoString V}
    (hl : ¬ map.entries.length > 0) (key : GoString) : map.get key = none := by
  have hn := List.length_eq_zero_iff.mp (Nat.eq_zero_of_not_pos hl)
  rw [SortedMap.get_eq_none_iff]
  intro v
  simp [hn]

theorem key_eq_of_length {V : Type} {map : SortedMap GoString V}
    (hl : ¬ map.entries.length > 1) {first b : GoString}
    {v other : V} (hf : map.get first = some v) (hs : map.get b = some other) : b = first := by
  rw [SortedMap.get_eq_some_iff] at hf hs
  match hentries : map.entries, hf, hs with
  | [entry], hf, hs =>
    rw [List.mem_singleton] at hf hs
    exact congrArg Prod.fst (hs.trans hf.symm)
  | _ :: _ :: _, _, _ => simp [hentries] at hl

variable {pos : ConfigPath}

theorem inspected_of_element {wset ordGroup : ConfigGroup}
    (hgr : ∀ nm inn, wset.groups.get nm = some inn → nm = ordererGroupKey ∧ inn = ordGroup)
    (hvl : ∀ nm, wset.values.get nm = none) (hor : ∀ nm, ordGroup.groups.get nm = none)
    (hov : ∀ nm v, ordGroup.values.get nm = some v → nm = consensusTypeKey) {it : ConfigItem}
    (hel : wset.element pos = some it) :
    Inspected pos := by
  induction pos using induction_within with
  | hroot => exact .inl rfl
  | hval => simp [hvl] at hel
  | hpol nm => exact .inr (.inl ⟨nm, rfl⟩)
  | hwithin nm pos =>
    rw [element_within, bind_eq_some_iff] at hel
    obtain ⟨inn, hin, hel⟩ := hel
    obtain ⟨rfl, rfl⟩ := hgr nm inn hin
    induction pos using induction_within with
    | hroot => exact .inr (.inr (.inl rfl))
    | hval nm =>
      rw [element_value_nil, map_eq_some_iff] at hel
      obtain ⟨v, hval, -⟩ := hel
      rw [hov nm v hval]
      exact .inr (.inr (.inr (.inr rfl)))
    | hpol nm => exact .inr (.inr (.inr (.inl ⟨nm, rfl⟩)))
    | hwithin =>
      rw [element_within, hor] at hel
      cases hel

variable {mf : MaintenanceFilter} {lastUpdate : Envelope}

theorem inspected_of_ensureConsensusTypeChangeOnly {configUpdateEnv : ConfigUpdateEnvelope}
    {configUpdate : ConfigUpdate} (hn : mf.ensureConsensusTypeChangeOnly lastUpdate = .ok ())
    (hee : mf.configCodec.envelopeToConfigUpdate lastUpdate = .ok configUpdateEnv)
    (hu : mf.configCodec.unmarshalConfigUpdate configUpdateEnv.configUpdate = .ok configUpdate)
    {it : ConfigItem}
    (hel : (configUpdate.writeSet.bind fun group => group.element pos) = some it) :
    Inspected pos := by
  unfold MaintenanceFilter.ensureConsensusTypeChangeOnly at hn
  rw [hee] at hn
  obtain ⟨_, he, hn⟩ := of_bind hn
  cases he
  rw [hu] at hn
  obtain ⟨_, he, hn⟩ := of_bind hn
  cases he
  obtain ⟨wset, hwr, hel⟩ := bind_eq_some_iff.mp hel
  simp only [hwr] at hn
  split_ifs at hn with hnil hvals hgrps
  cases hor : wset.groups.get ordererGroupKey with
  | none => simp [hor] at hn
  | some =>
    simp only [hor] at hn
    split_ifs at hn with hordGroups hconsensus hordValues
    obtain ⟨_, hval⟩ := ne_none_iff_exists'.mp (mt isNone_iff_eq_none.mpr hconsensus)
    apply inspected_of_element _ (get_eq_none_of_length hvals)
      (get_eq_none_of_length hordGroups) _ hel
    · intro _ _ hin
      have hnm := key_eq_of_length hgrps hor hin
      subst hnm
      rw [hor] at hin
      exact ⟨rfl, (Option.some.inj hin).symm⟩
    · intro _ _ ho
      exact key_eq_of_length hordValues hval ho

theorem inspectState_of_inspect {configEnvelope : Multichannel.ConfigEnvelope Config}
    {ordererConfig nextOrdererConfig : OrdererConfig} {nextBundle : Bundle}
    (hn : mf.inspect configEnvelope ordererConfig = .ok ())
    (hmg : ordererConfig.consensusTypeMigration = true)
    (hnx : newBundle mf.codec mf.channelID configEnvelope.config = .ok nextBundle)
    (ho : nextBundle.ordererConfig = some nextOrdererConfig)
    (hs : nextOrdererConfig.consensusState ≠ ordererConfig.consensusState)
    (hu : configEnvelope.lastUpdate = some lastUpdate) :
    mf.ensureConsensusTypeChangeOnly lastUpdate = .ok () ∧
      nextOrdererConfig.consensusType = ordererConfig.consensusType ∧
      nextOrdererConfig.consensusMetadata = ordererConfig.consensusMetadata := by
  unfold MaintenanceFilter.inspect at hn
  simp only [hu, hnx] at hn
  obtain ⟨_, hb, hrs⟩ := of_bind hn
  cases hb
  simp only [ho, hmg, not_true_eq_false, if_false] at hrs
  obtain ⟨_, hin, -⟩ := of_bind hrs
  unfold MaintenanceFilter.inspectState at hin
  rw [if_neg (Ne.symm hs)] at hin
  obtain ⟨_, hens, hrs⟩ := of_bind hin
  dsimp only at hrs
  split_ifs at hrs with hty hmt
  exact ⟨hens, (not_not.mp hty).symm, not_not.mp hmt⟩

end FabricSequencer.Channelconfig
