import FabricSequencer.ConfigUpdateAuthorization

/-!
# Accepted configuration updates change only what they may

The tree that results from an accepted update is rebuilt from a flat map, and
every element of it is found there under its full path.  It is either the
element of the present configuration or a written element that has passed the
checks.
-/

namespace FabricSequencer

open SortedMap List Option ConfigGroup ConfigItem LabelledTree ConfigPath ValidatorImpl

def ValidChildren (configMap : ConfigMap) : Prop :=
  ∀ key cg group, configMap.get key = some cg → cg.item = .configGroup group →
    ∀ name, name ∈ group.groups.keys ∨ name ∈ group.values.keys ∨
      name ∈ group.policies.keys → validateConfigID name = .ok ()

variable {pos : ConfigPath}

theorem exists_subtree_of_element {group inner : ConfigGroup}
    (hel : group.element pos = some (.configGroup inner)) :
    ∃ pa, pos = .group pa ∧ group.subtree pa = some inner := by
  cases pos with
  | group pa =>
    simp only [element, map_eq_some_iff, configGroup.injEq] at hel
    obtain ⟨_, hg, rfl⟩ := hel
    exact ⟨pa, rfl, hg⟩
  | value | policy => simp [element, bind_eq_some_iff] at hel

theorem validChildren_of_mapConfig {group : ConfigGroup} {root : GoString}
    {cm : ConfigMap} (hm : mapConfig (some group) root = .ok cm) :
    ValidChildren cm := by
  obtain ⟨-, hnm, hg⟩ := mapConfig_eq_ok_iff.mp hm
  intro key cg inn hcg hit nm hna
  obtain ⟨_, _, hel, -, rfl⟩ := (hg key cg).mp hcg
  rw [comparableAt_item] at hit
  subst hit
  obtain ⟨pa, rfl, hs⟩ := exists_subtree_of_element hel
  simp only [mem_keys_iff] at hna
  rcases hna with ⟨child, hch⟩ | ⟨value, hval⟩ | ⟨policy, hpol⟩
  · refine hnm (.group (pa ++ [nm])) (.configGroup child) ?_ nm (by simp [names])
    simp only [element, subtree_append, hs, bind_some, subtree_cons]
    change Option.map _ ((inn.groups.get nm).bind _) = _
    rw [hch]
    simp
  · exact hnm (.value pa nm) (.configValue value) (by simp [element, hs, hval]) nm (by simp [names])
  · exact hnm (.policy pa nm) (.configPolicy policy) (by simp [element, hs, hpol]) nm
      (by simp [names])

theorem validNames_recurseConfigMap {cm : ConfigMap} (hok : ValidChildren cm)
    {text : GoString} {result : ConfigGroup} (hreb : recurseConfigMap cm text = .ok result) :
    ValidNames result := by
  intro pos
  induction pos using induction_within generalizing text result with
  | hroot =>
    intro _ _ _ hna
    cases hna
  | hval nm =>
    intro _ hel _ ho
    rw [recurseConfigMap_eq] at hreb
    obtain ⟨cg, group, hg, hit, hrb⟩ := rebuildGroup_spec hreb
    rw [element_value_nil, map_eq_some_iff] at hel
    obtain ⟨value, hval, -⟩ := hel
    have hm : nm ∈ group.values.keys := by
      rw [← hrb.keys_eq.2.1, mem_keys_iff]
      exact ⟨value, hval⟩
    rw [mem_singleton.mp ho]
    exact hok _ cg group hg hit nm (.inr (.inl hm))
  | hpol nm =>
    intro _ hel _ ho
    rw [recurseConfigMap_eq] at hreb
    obtain ⟨cg, group, hg, hit, hrb⟩ := rebuildGroup_spec hreb
    rw [element_policy_nil, map_eq_some_iff] at hel
    obtain ⟨policy, hpol, -⟩ := hel
    have hm : nm ∈ group.policies.keys := by
      rw [← hrb.keys_eq.2.2, mem_keys_iff]
      exact ⟨policy, hpol⟩
    rw [mem_singleton.mp ho]
    exact hok _ cg group hg hit nm (.inr (.inr hm))
  | hwithin nm pos ih =>
    intro item hel other ho
    rw [recurseConfigMap_eq] at hreb
    obtain ⟨cg, group, hg, hit, hrb⟩ := rebuildGroup_spec hreb
    rw [element_within, bind_eq_some_iff] at hel
    obtain ⟨inn, hin, hel⟩ := hel
    have hnm : (within nm pos).names = nm :: pos.names := by
      cases pos <;> rfl
    rw [hnm] at ho
    rcases mem_cons.mp ho with rfl | hlat
    · have hm : other ∈ group.groups.keys := by
        rw [← hrb.keys_eq.1, mem_keys_iff]
        exact ⟨inn, hin⟩
      exact hok _ cg group hg hit other (.inl hm)
    rcases hrb.groups nm with ⟨-, hno⟩ | ⟨_, new, -, hn, hr⟩
    · rw [hno] at hin
      cases hin
    · rw [hr] at hin
      cases hin
      exact ih hn item hel other hlat

theorem ValidatorImpl.mapped {vi : ValidatorImpl} {cur : ConfigGroup}
    (hcurrent : vi.configProto.channelGroup = some cur) :
    mapConfig (some cur) vi.nameSpace = .ok vi.configMap := by
  obtain ⟨_, hg, hm⟩ := vi.held
  rw [hcurrent] at hg
  cases hg
  exact hm

section Proposed

variable {codec : ConfigCodec} {vi : ValidatorImpl} {cur : ConfigGroup}
  {configUpdateEnv : ConfigUpdateEnvelope} {cu : ConfigUpdate} {readSet writeSet : ConfigMap}
  {sd : List SignedData} (hcurrent : vi.configProto.channelGroup = some cur)
  (hat : Authorizes codec vi configUpdateEnv cu readSet writeSet sd)

include hat

theorem get_proposed {key : GoString} {cg : Comparable}
    (hg : (computeUpdateResult vi.configMap (computeDeltaSet readSet writeSet)).get key = some cg) :
    vi.configMap.get key = some cg ∨
      ((computeDeltaSet readSet writeSet).get key = some cg ∧
        DeltaAccepted vi.pm vi.configMap sd key cg) := by
  rw [get_computeUpdateResult] at hg
  cases hdl : (computeDeltaSet readSet writeSet).get key with
  | none =>
    rw [hdl] at hg
    exact .inl hg
  | some =>
    rw [hdl] at hg
    cases hg
    exact .inr ⟨rfl, (verifyDeltaSet_iff.mp hat.deltaSetVerified).2 key cg hdl⟩

include hcurrent

theorem allModPolicies_proposed
    (hmodPolicies : ∀ pos item, cur.element pos = some item → item.modPolicy ≠ []) :
    AllModPolicies (computeUpdateResult vi.configMap (computeDeltaSet readSet writeSet)) := by
  intro key cg hg
  rcases get_proposed hat hg with hold | ⟨-, ha⟩
  · obtain ⟨-, -, hm⟩ := mapConfig_eq_ok_iff.mp (mapped hcurrent)
    obtain ⟨pos, item, hel, -, rfl⟩ := (hm key cg).mp hold
    rw [comparableAt_item]
    exact hmodPolicies pos item hel
  · exact ne_nil_of_validateModPolicy ha.modPolicy

theorem validChildren_proposed :
    ValidChildren (computeUpdateResult vi.configMap (computeDeltaSet readSet writeSet)) := by
  intro key cg group hg
  rcases get_proposed hat hg with hold | ⟨hdl, -⟩
  · exact validChildren_of_mapConfig (mapped hcurrent) key cg group hold
  have hwr := (get_computeDeltaSet.mp hdl).1
  cases hwt : cu.writeSet with
  | none =>
    have hm := hat.writeSetMapped
    rw [hwt] at hm
    cases hm
    cases hwr
  | some =>
    have hm := hat.writeSetMapped
    rw [hwt] at hm
    exact validChildren_of_mapConfig hm key cg group hwr

end Proposed

def ConfigPath.child (position : ConfigPath) (parent : ConfigGroup) : Option ConfigItem :=
  match position with
  | .group path => path.getLast?.bind fun name => (parent.groups.get name).map .configGroup
  | .value _ name => (parent.values.get name).map .configValue
  | .policy _ name => (parent.policies.get name).map .configPolicy

theorem element_eq_bind_child (tree : ConfigGroup) {parent : List GoString}
    (hp : pos.parent = some parent) : tree.element pos = (tree.subtree parent).bind pos.child := by
  cases pos with
  | group pa =>
    cases pa with
    | nil => cases hp
    | cons nm pa =>
      have hpt : nm :: pa = parent ++ [(nm :: pa).getLast (cons_ne_nil _ _)] := by
        rw [← Option.some.inj hp]
        exact (dropLast_append_getLast _).symm
      rw [hpt]
      generalize (nm :: pa).getLast _ = last
      rw [element, subtree_append, map_bind]
      congr 1
      funext inn
      simp [child, groups, subtree_cons]
  | value | policy =>
    cases hp
    rfl

theorem isSome_child_eq {group other : ConfigGroup} (pos : ConfigPath)
    (hw : (configGroup group).own = (configGroup other).own) :
    (pos.child group).isSome = (pos.child other).isSome := by
  simp only [own, OwnFields.group.injEq] at hw
  obtain ⟨-, -, hgr, hvl, hpl⟩ := hw
  cases pos with
  | group pa =>
    cases hla : pa.getLast? with
    | none => simp [child, hla]
    | some => simp [child, hla, isSome_get_of_keys_eq hgr]
  | value => simp [child, isSome_get_of_keys_eq hvl]
  | policy => simp [child, isSome_get_of_keys_eq hpl]

/-! ## Soundness -/

/-- The tree after an update compared with the one before it. -/
structure SoundUpdate (vi : ValidatorImpl) (signedData : List SignedData)
    (current updated : ConfigGroup) : Prop where
  kept : ∀ position item next, current.element position = some item →
    updated.element position = some next →
      next.own = item.own ∨
        next.version = item.version + 1 ∧
          Satisfied vi.pm signedData (comparableAt [vi.nameSpace] position item)
  added : ∀ position next, current.element position = none →
    updated.element position = some next → next.version = 0
  membership : ∀ position parent, position.parent = some parent →
    (current.element position).isSome ≠ (updated.element position).isSome →
      (∃ group next, current.subtree parent = some group ∧ updated.subtree parent = some next ∧
        ConfigGroup.version group < ConfigGroup.version next) ∨
      (current.subtree parent).isSome ≠ (updated.subtree parent).isSome

section Soundness

variable {codec : ConfigCodec} {vi : ValidatorImpl} {cur upd : ConfigGroup}
  {configUpdateEnv : ConfigUpdateEnvelope} {cu : ConfigUpdate} {readSet writeSet : ConfigMap}
  {sd : List SignedData} (hcurrent : vi.configProto.channelGroup = some cur)
  (hat : Authorizes codec vi configUpdateEnv cu readSet writeSet sd)
  (hreb : configMapToConfig (computeUpdateResult vi.configMap
    (computeDeltaSet readSet writeSet)) vi.nameSpace = .ok upd)
  (hmodPolicies : ∀ pos item, cur.element pos = some item → item.modPolicy ≠ [])

theorem keyBelow_root (root : GoString) (pos : ConfigPath) :
    pos.keyBelow [root] = pos.fqPath root := rfl

theorem version_eq_of_own_eq {first b : ConfigItem}
    (hw : first.own = b.own) : first.version = b.version := by
  rw [← version_own, hw, version_own]

include hcurrent

theorem get_configMap (hok : ∀ nm ∈ pos.names, validateConfigID nm = .ok ()) :
    vi.configMap.get (pos.fqPath vi.nameSpace) =
      (cur.element pos).map (comparableAt [vi.nameSpace] pos) :=
  get_mapConfig (mapped hcurrent) hok

include hat hreb

theorem validNames_updated : ValidNames upd :=
  validNames_recurseConfigMap (validChildren_proposed hcurrent hat) hreb

include hmodPolicies

theorem element_updated {next : ConfigItem} (hnx : upd.element pos = some next) :
    (∃ item, cur.element pos = some item ∧ next.own = item.own) ∨
      ∃ cg, cg.item.own = next.own ∧
        (computeDeltaSet readSet writeSet).get (pos.fqPath vi.nameSpace) = some cg ∧
        DeltaAccepted vi.pm vi.configMap sd (pos.fqPath vi.nameSpace) cg := by
  have hs := allModPolicies_proposed hcurrent hat hmodPolicies
  have hok := validNames_updated hcurrent hat hreb pos next hnx
  rw [configMapToConfig, ← joinedPath_singleton] at hreb
  obtain ⟨cg, hg, hw⟩ := element_recurseConfigMap hs hreb hnx
  rcases get_proposed hat hg with hold | hdl
  · rw [keyBelow_root, get_configMap hcurrent hok, map_eq_some_iff] at hold
    obtain ⟨item, hit, rfl⟩ := hold
    rw [comparableAt_item] at hw
    exact .inl ⟨item, hit, hw.symm⟩
  · exact .inr ⟨cg, hw, hdl⟩

theorem soundUpdate_of_authorizes
    (hvr : ∀ pos item, cur.element pos = some item → item.version < 2 ^ 64 - 1) :
    SoundUpdate vi sd cur upd := by
  have hok := validNames_updated hcurrent hat hreb
  have hkp : ∀ pos item next, cur.element pos = some item →
      upd.element pos = some next →
        next.own = item.own ∨
          next.version = item.version + 1 ∧
            Satisfied vi.pm sd (comparableAt [vi.nameSpace] pos item) := by
    intro pos item next hit hnx
    rcases element_updated hcurrent hat hreb hmodPolicies hnx with ⟨other, ho, hw⟩ | ⟨cg, hw, -, ha⟩
    · rw [hit] at ho
      cases ho
      exact .inl hw
    have hg := get_configMap hcurrent (hok pos next hnx)
    rw [hit, map_some] at hg
    obtain ⟨hv, hst⟩ := ha.changed _ hg
    have hsm := hvr pos item hit
    rw [comparableAt_item, uint64_of_lt (by omega), version_eq_of_own_eq hw] at hv
    exact .inr ⟨hv, hst⟩
  refine ⟨hkp, ?_, ?_⟩
  · intro pos next hno hnx
    rcases element_updated hcurrent hat hreb hmodPolicies hnx with ⟨item, hit, -⟩ | ⟨cg, hw, -, ha⟩
    · rw [hno] at hit
      cases hit
    · have hg := get_configMap hcurrent (hok pos next hnx)
      rw [hno] at hg
      rw [← version_eq_of_own_eq hw]
      exact ha.added hg
  · intro pos parent hp hms
    rw [element_eq_bind_child cur hp, element_eq_bind_child upd hp] at hms
    cases hr : cur.subtree parent with
    | none =>
      cases ho : upd.subtree parent with
      | none =>
        rw [hr, ho] at hms
        exact absurd rfl hms
      | some => simp
    | some group =>
      cases ho : upd.subtree parent with
      | none => simp
      | some other =>
        rw [hr, ho] at hms
        refine .inl ⟨group, other, rfl, rfl, ?_⟩
        rcases hkp (.group parent) (.configGroup group) (.configGroup other) (by simp [element, hr])
          (by simp [element, ho]) with hw | ⟨hnx, -⟩
        · exact absurd (isSome_child_eq pos hw.symm) hms
        · exact Nat.lt_of_lt_of_eq (Nat.lt_succ_self _) hnx.symm

end Soundness

/-- An update that `proposeConfigUpdate` accepts changes an element only with
its version and under its present `mod_policy`, adds elements at version zero,
and changes the members of a group only with the version of the group. -/
theorem proposeConfigUpdate_sound (codec : ConfigCodec) (vi : ValidatorImpl)
    {current : ConfigGroup} (hcurrent : vi.configProto.channelGroup = some current)
    (hmodPolicies : ∀ position item, current.element position = some item → item.modPolicy ≠ [])
    (hversions : ∀ position item, current.element position = some item → item.version < 2 ^ 64 - 1)
    {configtx : Envelope} {configEnvelope : Multichannel.ConfigEnvelope Config}
    (hpropose : vi.proposeConfigUpdate codec configtx = .ok configEnvelope) :
    ∃ configUpdateEnv signedData config updated,
      codec.envelopeToConfigUpdate configtx = .ok configUpdateEnv ∧
        configUpdateEnvelopeAsSignedData codec configUpdateEnv = .ok signedData ∧
        configEnvelope.config = some config ∧
        config.channelGroup = some updated ∧
        SoundUpdate vi signedData current updated := by
  obtain ⟨configUpdateEnv, cm, updated, henv, hath, hreb,
    rfl⟩ := proposeConfigUpdate_eq_ok_iff.mp hpropose
  obtain ⟨_, _, _, signedData, hat, rfl⟩ := authorizeUpdate_eq_ok_iff.mp hath
  exact ⟨configUpdateEnv, signedData, _, updated, henv, hat.signed,
    rfl, rfl, soundUpdate_of_authorizes hcurrent hat hreb hmodPolicies hversions⟩

def adminsPolicy : GoString := ascii "/Channel/Admins"

def oneEntry {V : Type} (name : GoString) (value : V) : SortedMap GoString V :=
  SortedMap.empty.insert name value

def sampleGroup (version : ℕ) (value : Bytes) : ConfigGroup :=
  ConfigGroup.literal 0
    (oneEntry (ascii "App") (ConfigGroup.literal 3 SortedMap.empty
      (oneEntry (ascii "v")
        { version := version, value := value, modPolicy := adminsPolicy })
      SortedMap.empty adminsPolicy))
    SortedMap.empty SortedMap.empty adminsPolicy

def sampleUpdate : ConfigUpdate where
  channelId := ascii "ch"
  readSet := some (ConfigGroup.literal 0
    (oneEntry (ascii "App") (ConfigGroup.literal 3 SortedMap.empty
      SortedMap.empty SortedMap.empty []))
    SortedMap.empty SortedMap.empty [])
  writeSet := some (ConfigGroup.literal 0
    (oneEntry (ascii "App") (ConfigGroup.literal 3 SortedMap.empty
      (oneEntry (ascii "v")
        { version := 2, value := [8], modPolicy := adminsPolicy })
      SortedMap.empty []))
    SortedMap.empty SortedMap.empty [])

def sampleCodec (configUpdate : ConfigUpdate) : ConfigCodec where
  envelopeToConfigUpdate _ := .ok { configUpdate := [], signatures := [] }
  unmarshalConfigUpdate _ := .ok configUpdate
  unmarshalSignatureHeader _ := .ok []

def acceptingManager : Policies.Manager :=
  .mk (fun _ => none) fun _ => some { evaluateSignedData := fun _ => .ok () }

def sampleConfig (version : ℕ) (value : Bytes) : Config where
  sequence := 5
  channelGroup := some (sampleGroup version value)

def sampleMap : ConfigMap :=
  (mapConfig (some (sampleGroup 1 [7])) (ascii "Channel")).toOption.getD SortedMap.empty

theorem eq_ok_of_isSome {α : Type} {oc : Outcome α}
    (hsm : oc.toOption.isSome = true) (default : α) : oc = .ok (oc.toOption.getD default) := by
  cases oc with
  | error => cases hsm
  | ok => rfl

theorem mapConfig_sampleGroup :
    mapConfig (some (sampleGroup 1 [7])) (ascii "Channel") = .ok sampleMap :=
  eq_ok_of_isSome (by decide +kernel) SortedMap.empty

def sampleValidator : ValidatorImpl where
  channelID := ascii "ch"
  sequence := 5
  configMap := sampleMap
  configProto := sampleConfig 1 [7]
  nameSpace := ascii "Channel"
  pm := acceptingManager
  held := ⟨sampleGroup 1 [7], rfl, mapConfig_sampleGroup⟩

theorem sampleUpdate_accepted :
    (sampleValidator.proposeConfigUpdate (sampleCodec sampleUpdate)
      { payload := [], signature := [] }).toOption.isSome = true := by
  decide +kernel

theorem sampleUpdate_sound :
    ∃ configEnvelope,
      sampleValidator.proposeConfigUpdate (sampleCodec sampleUpdate)
          { payload := [], signature := [] } = .ok configEnvelope ∧
        ∃ configUpdateEnv signedData config updated,
          (sampleCodec sampleUpdate).envelopeToConfigUpdate
            { payload := [], signature := [] } = .ok configUpdateEnv ∧
          configUpdateEnvelopeAsSignedData (sampleCodec sampleUpdate)
            configUpdateEnv = .ok signedData ∧
          configEnvelope.config = some config ∧
          config.channelGroup = some updated ∧
          SoundUpdate sampleValidator signedData (sampleGroup 1 [7])
            updated := by
  have hpr := eq_ok_of_isSome sampleUpdate_accepted
    { config := none, lastUpdate := none }
  have hmodPolicies := (forall_element_iff (sampleGroup 1 [7]) []
    fun item => item.modPolicy ≠ []).mpr (by decide +kernel)
  have hvr := (forall_element_iff (sampleGroup 1 [7]) []
    fun item => item.version < 2 ^ 64 - 1).mpr (by decide +kernel)
  exact ⟨_, hpr, proposeConfigUpdate_sound _ sampleValidator rfl hmodPolicies hvr hpr⟩

/-! ## An update is accepted once -/

/-- The validator holds an element there whose version can grow. -/
structure HoldsAt (vi : ValidatorImpl) (pos : ConfigPath) (version : ℕ) (cur : ConfigGroup) :
    Prop where
  current : vi.configProto.channelGroup = some cur
  modPolicies : ∀ pos item, cur.element pos = some item → item.modPolicy ≠ []
  element : ∃ item, cur.element pos = some item ∧ item.version = version
  version_lt : version < 2 ^ 64 - 1

/-- The validator `next` of the configuration that an accepted update leads to. -/
def Accepts (codec : ConfigCodec) (vi : ValidatorImpl) (configtx : Envelope)
    (next : ValidatorImpl) : Prop :=
  next.nameSpace = vi.nameSpace ∧ ∃ configEnvelope,
    vi.proposeConfigUpdate codec configtx = .ok configEnvelope ∧
      configEnvelope.config = some next.configProto

def Follows (codec : ConfigCodec) (pos : ConfigPath) (vi next : ValidatorImpl) : Prop :=
  (∃ configtx, Accepts codec vi configtx next) ∧ ∃ version upd, HoldsAt next pos version upd

section

variable {codec : ConfigCodec} {vi next final : ValidatorImpl} {cur upd : ConfigGroup} {v : ℕ}

theorem HoldsAt.version_next (hvi : HoldsAt vi pos v cur) {env cu readSet wset sd} {cg : Comparable}
    (hat : Authorizes codec vi env cu readSet wset sd)
    (hok : ∀ nm ∈ pos.names, validateConfigID nm = .ok ())
    (hdl : (computeDeltaSet readSet wset).get (pos.fqPath vi.nameSpace) = some cg) :
    cg.item.version = v + 1 := by
  have ha := (verifyDeltaSet_iff.mp hat.deltaSetVerified).2 _ cg hdl
  obtain ⟨_, hit, rfl⟩ := hvi.element
  have hlt := hvi.version_lt
  have hg := get_configMap hvi.current hok
  rw [hit, map_some] at hg
  have hv := (ha.changed _ hg).1
  rwa [comparableAt_item, uint64_of_lt (by omega)] at hv

theorem Accepts.unchanged_or_written {configtx : Envelope} (hac : Accepts codec vi configtx next)
    (hcur : vi.configProto.channelGroup = some cur)
    (hmod : ∀ pos item, cur.element pos = some item → item.modPolicy ≠ [])
    (hnx : HoldsAt next pos v upd) :
    (upd.element pos).map own = (cur.element pos).map own ∨
      ∃ env cu readSet wset sd cg, codec.envelopeToConfigUpdate configtx = .ok env ∧
        Authorizes codec vi env cu readSet wset sd ∧
        (∀ nm ∈ pos.names, validateConfigID nm = .ok ()) ∧
        (computeDeltaSet readSet wset).get (pos.fqPath vi.nameSpace) = some cg ∧
        cg.item.version = v := by
  obtain ⟨-, _, hpr, hcf⟩ := hac
  obtain ⟨env, _, _, he, hath, hreb, rfl⟩ := proposeConfigUpdate_eq_ok_iff.mp hpr
  obtain ⟨cu, readSet, wset, sd, hat, rfl⟩ := authorizeUpdate_eq_ok_iff.mp hath
  have hup := hnx.current
  rw [← Option.some.inj hcf] at hup
  cases hup
  obtain ⟨item, hit, rfl⟩ := hnx.element
  rcases element_updated hcur hat hreb hmod hit with ⟨old, hold, hown⟩ | ⟨cg, hown, hdl, -⟩
  · rw [hit, hold, map_some, map_some, hown]
    exact .inl rfl
  · exact .inr ⟨env, cu, readSet, wset, sd, cg, he, hat,
      validNames_updated hcur hat hreb pos item hit, hdl, version_eq_of_own_eq hown⟩

theorem HoldsAt.version_le (hvi : HoldsAt vi pos v cur)
    (hr : Relation.ReflTransGen (Follows codec pos) vi final) :
    final.nameSpace = vi.nameSpace ∧ ∃ later upd, HoldsAt final pos later upd ∧ v ≤ later := by
  induction hr with
  | refl => exact ⟨rfl, v, cur, hvi, le_rfl⟩
  | tail _ hstep ih =>
    obtain ⟨hns, _, _, hm, hle⟩ := ih
    obtain ⟨⟨_, hac⟩, later, upd, hnx⟩ := hstep
    refine ⟨hac.1.trans hns, later, upd, hnx, hle.trans ?_⟩
    rcases hac.unchanged_or_written hm.current hm.modPolicies hnx with
      heq | ⟨_, _, _, _, _, cg, -, hat, hok, hdl, rfl⟩
    · obtain ⟨_, hold, rfl⟩ := hm.element
      obtain ⟨_, hit, rfl⟩ := hnx.element
      rw [hold, hit, map_some, map_some] at heq
      exact (version_eq_of_own_eq (Option.some.inj heq)).ge
    · rw [hm.version_next hat hok hdl]
      exact Nat.le_succ _

end

/-- An update that has changed an element is not accepted again as long as the element stays. -/
theorem update_accepted_once (codec : ConfigCodec) {vi next final : ValidatorImpl}
    {current updated : ConfigGroup} {configtx : Envelope} {version : ℕ}
    (hcurrent : vi.configProto.channelGroup = some current)
    (hmodPolicies : ∀ position item, current.element position = some item → item.modPolicy ≠ [])
    (haccepts : Accepts codec vi configtx next) (hnext : HoldsAt next pos version updated)
    (hchanged : (updated.element pos).map own ≠ (current.element pos).map own)
    (hrun : Relation.ReflTransGen (Follows codec pos) next final)
    (configEnvelope : Multichannel.ConfigEnvelope Config) :
    final.proposeConfigUpdate codec configtx ≠ .ok configEnvelope := by
  intro hpr
  obtain ⟨_, _, _, _, _, cg, he, hat, hok, hdl, rfl⟩ :=
    (haccepts.unchanged_or_written hcurrent hmodPolicies hnext).resolve_left hchanged
  obtain ⟨hns, later, _, hf, hle⟩ := hnext.version_le hrun
  rw [haccepts.1] at hns
  obtain ⟨_, _, _, he', hath, -⟩ := proposeConfigUpdate_eq_ok_iff.mp hpr
  obtain ⟨_, _, _, _, hat', -⟩ := authorizeUpdate_eq_ok_iff.mp hath
  -- the update is read as it was the first time
  cases he.symm.trans he'
  cases hat.unmarshalled.symm.trans hat'.unmarshalled
  cases hat.readSetMapped.symm.trans (hns ▸ hat'.readSetMapped)
  cases hat.writeSetMapped.symm.trans (hns ▸ hat'.writeSetMapped)
  rw [← hns] at hdl
  have hv := hf.version_next hat' hok hdl
  omega

def updatedValidator : ValidatorImpl where
  channelID := ascii "ch"
  sequence := 6
  configMap := (mapConfig (some (sampleGroup 2 [8])) (ascii "Channel")).toOption.getD
    SortedMap.empty
  configProto := { sampleConfig 2 [8] with sequence := 6 }
  nameSpace := ascii "Channel"
  pm := acceptingManager
  held := ⟨sampleGroup 2 [8], rfl, eq_ok_of_isSome (by decide +kernel) SortedMap.empty⟩

theorem update_accepted_once_sample :
    Accepts (sampleCodec sampleUpdate) sampleValidator { payload := [], signature := [] }
        updatedValidator ∧
      ¬∃ configEnvelope, updatedValidator.proposeConfigUpdate (sampleCodec sampleUpdate)
        { payload := [], signature := [] } = .ok configEnvelope := by
  have hac : Accepts (sampleCodec sampleUpdate) sampleValidator { payload := [], signature := [] }
      updatedValidator :=
    ⟨rfl, _, eq_ok_of_isSome sampleUpdate_accepted { config := none, lastUpdate := none }, rfl⟩
  have hmod {group : ConfigGroup} :=
    (forall_element_iff group [] fun item => item.modPolicy ≠ []).mpr
  have hnx : HoldsAt updatedValidator (.value [ascii "App"] (ascii "v")) 2 (sampleGroup 2 [8]) :=
    ⟨rfl, hmod (by decide +kernel), ⟨_, rfl, rfl⟩, by decide⟩
  exact ⟨hac, fun ⟨env, h⟩ =>
    update_accepted_once _ rfl (hmod (by decide +kernel)) hac hnx (by decide +kernel) .refl env h⟩

end FabricSequencer
