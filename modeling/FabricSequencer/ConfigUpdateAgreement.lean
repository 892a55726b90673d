import FabricSequencer.ConfigUpdateCompute

/-!
# Computed updates lead to the updated configuration

An update that `compute` returns passes the checks of the validator of the
original configuration once the policies are satisfied.  Its delta set has
exactly the elements that differ, so the rebuilt tree is the updated one up to
versions.
-/

namespace FabricSequencer

open Option ConfigItem

theorem compute_eq_ok_iff {original updated : Config} {configUpdate : ConfigUpdate} :
    compute original updated = .ok configUpdate ↔
      ∃ og ug,
        original.channelGroup = some og ∧ updated.channelGroup = some ug ∧
          (computeGroupUpdate og ug).updatedGroup = true ∧
          configUpdate =
            { channelId := []
              readSet := some (computeGroupUpdate og ug).readSet
              writeSet := some (computeGroupUpdate og ug).writeSet } := by
  unfold compute
  cases original.channelGroup with
  | none => simp
  | some og =>
    cases updated.channelGroup with
    | none => simp
    | some ug =>
      cases hupd : (computeGroupUpdate og ug).updatedGroup with
      | false => simp [hupd]
      | true =>
        simp only [hupd, Bool.not_true, Bool.false_eq_true, if_false]
        constructor
        · intro hok
          exact ⟨og, ug, rfl, rfl, hupd, (Except.ok.inj hok).symm⟩
        · rintro ⟨_, _, hor, hg, -, rfl⟩
          cases hor
          cases hg
          rfl

theorem uint64_succ_ne (number : ℕ) : uint64 (number + 1) ≠ number := by
  unfold uint64
  omega

theorem version_withVersion (number : ℕ) (fs : OwnFields) :
    (fs.withVersion number).version = number := by
  cases fs <;> rfl

theorem modPolicy_withVersion (num : ℕ) (fs : OwnFields) :
    (fs.withVersion num).modPolicy = fs.modPolicy := by
  cases fs <;> rfl

theorem withVersion_withVersion (first second : ℕ) (fs : OwnFields) :
    (fs.withVersion first).withVersion second = fs.withVersion second := by
  cases fs <;> rfl

section Agreement

variable {vi : ValidatorImpl} {og ug readGroup writeGroup : ConfigGroup}
  {readSet writeSet : ConfigMap} {signedData : List SignedData}

def DiffersBetween (originalGroup updatedGroup : ConfigGroup) (position : ConfigPath) : Prop :=
  DiffersAt (originalGroup.element position) (updatedGroup.element position)

structure RecordedUpdate (vi : ValidatorImpl)
    (originalGroup updatedGroup readGroup writeGroup : ConfigGroup)
    (readSet writeSet : ConfigMap) : Prop where
  current : vi.configProto.channelGroup = some originalGroup
  recorded : ∀ position,
    RecordsAt (originalGroup.element position) (updatedGroup.element position)
      (readGroup.element position) (writeGroup.element position)
  names : ValidNames updatedGroup
  readSetMapped : mapConfig (some readGroup) vi.nameSpace = .ok readSet
  writeSetMapped : mapConfig (some writeGroup) vi.nameSpace = .ok writeSet

section

variable (hrec : ∀ pos, RecordsAt (og.element pos)
  (ug.element pos) (readGroup.element pos) (writeGroup.element pos))

include hrec

theorem validNames_readGroup (hnm : ValidNames og) : ValidNames readGroup := by
  intro pos it hel
  obtain ⟨old, hl, -⟩ := (hrec pos).current it hel
  exact hnm pos old hl

theorem validNames_writeGroup (hor : ValidNames og) (hupd : ValidNames ug) :
    ValidNames writeGroup := by
  intro pos it hel
  by_cases hdf : DiffersBetween og ug pos
  · obtain ⟨new, hn, -⟩ := hdf
    exact hupd pos new hn
  · obtain ⟨old, -, hl, -⟩ := (hrec pos).kept it hel hdf
    exact hor pos old hl

end

namespace RecordedUpdate

variable (hupd : RecordedUpdate vi og ug readGroup writeGroup readSet writeSet)

include hupd

theorem readSetVerified : verifyReadSet vi.configMap readSet = .ok () := by
  rw [verifyReadSet_iff]
  obtain ⟨-, hnm, hg⟩ := mapConfig_eq_ok_iff.mp hupd.readSetMapped
  intro key value hval
  obtain ⟨pos, it, hel, rfl, rfl⟩ := (hg key value).mp hval
  obtain ⟨old, hl, hv⟩ := (hupd.recorded pos).current it hel
  refine ⟨comparableAt [vi.nameSpace] pos old, ?_, ?_⟩
  · rw [get_configMap hupd.current (hnm pos it hel), hl]
    rfl
  · rw [comparableAt_item, comparableAt_item, hv]

theorem get_delta {key : GoString} {cg : Comparable} :
    (computeDeltaSet readSet writeSet).get key = some cg ↔
      ∃ pos item, DiffersBetween og ug pos ∧ writeGroup.element pos = some item ∧
        pos.fqPath vi.nameSpace = key ∧
        cg = comparableAt [vi.nameSpace] pos item := by
  obtain ⟨-, hnm, hg⟩ := mapConfig_eq_ok_iff.mp hupd.writeSetMapped
  rw [get_computeDeltaSet, hg]
  constructor
  · rintro ⟨⟨pos, item, hel, rfl, rfl⟩, hread⟩
    refine ⟨pos, item, ?_, hel, rfl, rfl⟩
    by_contra heq
    obtain ⟨_, _, -, ho, -, hv⟩ := (hupd.recorded pos).kept item hel heq
    have hfn := get_mapConfig hupd.readSetMapped (hnm pos item hel)
    rw [ho] at hfn
    apply hread _ hfn
    rw [comparableAt_item, comparableAt_item, hv]
  · rintro ⟨pos, item, hdf, hel, rfl, rfl⟩
    refine ⟨⟨pos, item, hel, rfl, rfl⟩, ?_⟩
    intro _ hr
    rw [get_mapConfig hupd.readSetMapped (hnm pos item hel), map_eq_some_iff] at hr
    obtain ⟨other, ho, rfl⟩ := hr
    obtain ⟨old, hl, hv⟩ := (hupd.recorded pos).current other ho
    obtain ⟨_, -, hw⟩ := (hupd.recorded pos).changed item hel hdf
    have hit : item.version = uint64 (old.version + 1) := by
      rw [← version_own, hw, version_withVersion, hl]
      rfl
    rw [comparableAt_item, comparableAt_item, hit, ← hv]
    exact (uint64_succ_ne old.version).symm

theorem deltaAccepted
    (hmd : ∀ pos it, ug.element pos = some it → validateModPolicy it.modPolicy = .ok ())
    (hst : ∀ pos it,
      og.element pos = some it → Satisfied vi.pm signedData (comparableAt [vi.nameSpace] pos it))
    {key : GoString} {cg : Comparable} (hg : (computeDeltaSet readSet writeSet).get key = some cg) :
    DeltaAccepted vi.pm vi.configMap signedData key cg := by
  obtain ⟨pos, it, hdf, hel, rfl, rfl⟩ := hupd.get_delta.mp hg
  obtain ⟨new, hn, hw⟩ := (hupd.recorded pos).changed it hel hdf
  have hc := get_configMap hupd.current (hupd.names pos new hn)
  have hv : it.version = nextVersion (og.element pos) := by
    rw [← version_own, hw, version_withVersion]
  refine ⟨?_, ?_, ?_⟩
  · rw [comparableAt_item, ← modPolicy_own, hw, modPolicy_withVersion, modPolicy_own]
    exact hmd pos new hn
  · intro hb
    rw [hc, map_eq_none_iff] at hb
    rw [comparableAt_item, hv, hb]
    rfl
  · intro _ hex
    rw [hc, map_eq_some_iff] at hex
    obtain ⟨old, hl, rfl⟩ := hex
    rw [comparableAt_item, comparableAt_item, hv, hl]
    exact ⟨rfl, hst pos old hl⟩

theorem fullVerified :
    verifyFullProposedConfig writeSet
      (computeUpdateResult vi.configMap (computeDeltaSet readSet writeSet)) = .ok () := by
  rw [verifyFullProposedConfig_iff]
  obtain ⟨-, hnm, hg⟩ := mapConfig_eq_ok_iff.mp hupd.writeSetMapped
  intro key value hval
  obtain ⟨pos, it, hel, rfl, rfl⟩ := (hg key value).mp hval
  rw [get_computeUpdateResult]
  by_cases hdf : DiffersBetween og ug pos
  · have hdl := hupd.get_delta.mpr ⟨pos, it, hdf, hel, rfl, rfl⟩
    exact ⟨_, by rw [hdl]; rfl⟩
  obtain ⟨_, -, hl, -⟩ := (hupd.recorded pos).kept it hel hdf
  have hc := get_configMap hupd.current (hnm pos it hel)
  rw [hl] at hc
  cases (computeDeltaSet readSet writeSet).get (pos.fqPath vi.nameSpace) with
  | none => exact ⟨_, hc⟩
  | some wr => exact ⟨wr, rfl⟩

theorem get_proposed_updated {pos : ConfigPath} {new : ConfigItem}
    (hn : ug.element pos = some new) :
    ∃ cg, (computeUpdateResult vi.configMap
        (computeDeltaSet readSet writeSet)).get (pos.fqPath vi.nameSpace) = some cg ∧
      cg.item.content = new.content ∧
      ∀ old, og.element pos = some old →
        old.content = new.content → cg.item.version = old.version := by
  have hok := hupd.names pos new hn
  have hsl : ∀ {other : ConfigPath}, (∀ name ∈ other.names, validateConfigID name = .ok ()) →
      ∀ name ∈ vi.nameSpace :: other.names, slash ∉ name := by
    intro _ ho name hnm
    obtain ⟨hroot, -, -⟩ := mapConfig_eq_ok_iff.mp hupd.writeSetMapped
    rcases List.mem_cons.mp hnm with rfl | hmem
    · exact slash_notMem_of_validateConfigID hroot
    · exact slash_notMem_of_validateConfigID (ho name hmem)
  obtain ⟨-, hwr, -⟩ := mapConfig_eq_ok_iff.mp hupd.writeSetMapped
  rw [get_computeUpdateResult]
  by_cases hdf : DiffersBetween og ug pos
  · obtain ⟨it, hel⟩ := (hupd.recorded pos).covered hdf
    obtain ⟨_, ho, hw⟩ := (hupd.recorded pos).changed it hel hdf
    rw [hn] at ho
    cases ho
    have hdl := hupd.get_delta.mpr ⟨pos, it, hdf, hel, rfl, rfl⟩
    refine ⟨_, by rw [hdl]; rfl, ?_, ?_⟩
    · rw [comparableAt_item, ConfigItem.content, hw, withVersion_withVersion]
      rfl
    intro old hl hcn
    obtain ⟨_, ho, ha⟩ := hdf
    rw [hn] at ho
    cases ho
    exact absurd hcn (ha old hl)
  · have hdl : (computeDeltaSet readSet writeSet).get (pos.fqPath vi.nameSpace) = none := by
      rw [eq_none_iff_forall_not_mem]
      intro _ hcg
      obtain ⟨other, it, ho, hel, hk, -⟩ := hupd.get_delta.mp hcg
      have heq := ConfigPath.fqPath_injective (hsl (hwr other it hel)) (hsl hok) hk
      exact hdf (heq ▸ ho)
    obtain ⟨old, hl, hcn⟩ : ∃ old, og.element pos = some old ∧ old.content = new.content := by
      by_contra hnone
      apply hdf
      refine ⟨new, hn, ?_⟩
      intro old hl hcn
      exact hnone ⟨old, hl, hcn⟩
    refine ⟨comparableAt [vi.nameSpace] pos old, ?_, ?_, ?_⟩
    · rw [hdl]
      change vi.configMap.get _ = _
      rw [get_configMap hupd.current hok, hl]
      rfl
    · rw [comparableAt_item, hcn]
    · intro _ ho _
      rw [hl] at ho
      cases ho
      rw [comparableAt_item]

end RecordedUpdate

/-- One tree has the elements of another up to versions. -/
def SameUpToVersions (first second : ConfigGroup) : Prop :=
  ∀ position, (first.element position).map ConfigItem.content =
    (second.element position).map ConfigItem.content

theorem exists_proposed_tree (hupd : RecordedUpdate vi og ug readGroup writeGroup readSet writeSet)
    (hs : AllModPolicies (computeUpdateResult vi.configMap (computeDeltaSet readSet writeSet))) :
    ∃ channelGroup,
      configMapToConfig (computeUpdateResult vi.configMap
          (computeDeltaSet readSet writeSet)) vi.nameSpace = .ok channelGroup ∧
        SameUpToVersions channelGroup ug ∧
        ∀ pos old new, og.element pos = some old → channelGroup.element pos = some new →
          new.version ≠ old.version → new.content ≠ old.content := by
  have hhl : Holds (computeUpdateResult vi.configMap
      (computeDeltaSet readSet writeSet)) [vi.nameSpace] ug := by
    intro _ _ hit
    obtain ⟨cg, hg, hcn, -⟩ := hupd.get_proposed_updated hit
    exact ⟨cg, hg, hcn⟩
  obtain ⟨channelGroup, hr, hsh⟩ := exists_recurseConfigMap hhl
  have hc : SameUpToVersions channelGroup ug := by
    intro pos
    have hsm := hsh pos
    cases hfn : channelGroup.element pos with
    | none =>
      rw [hfn, isSome_none, eq_comm, isSome_eq_false_iff, isNone_iff_eq_none] at hsm
      rw [hsm]
    | some =>
      rw [hfn, isSome_some, eq_comm, isSome_iff_exists] at hsm
      obtain ⟨_, ho⟩ := hsm
      rw [ho, map_some, map_some, content_recurseConfigMap hs hhl hr hfn ho]
  refine ⟨channelGroup, ?_, hc, ?_⟩
  · rw [configMapToConfig, ← joinedPath_singleton]
    exact hr
  intro pos old _ hl hn hv hcn
  have heq := hc pos
  rw [hn, map_some, eq_comm, map_eq_some_iff] at heq
  obtain ⟨_, ho, hel⟩ := heq
  obtain ⟨_, hg, -, hkp⟩ := hupd.get_proposed_updated ho
  obtain ⟨_, hfn, hw⟩ := element_recurseConfigMap hs hr hn
  rw [keyBelow_root, hg] at hfn
  cases hfn
  apply hv
  rw [← version_eq_of_own_eq hw]
  exact hkp old hl (hcn.symm.trans hel.symm)

end Agreement

/-- An update that `compute` returns leads from the original configuration to
the updated one, and an element gets another version only if it differs. -/
theorem proposeConfigUpdate_compute (codec : ConfigCodec) (vi : ValidatorImpl)
    {updated : Config} {originalGroup updatedGroup : ConfigGroup}
    (horiginal : vi.configProto.channelGroup = some originalGroup)
    (hupdated : updated.channelGroup = some updatedGroup) (hnames : ValidNames updatedGroup)
    (horiginalPolicies : ∀ position item,
      originalGroup.element position = some item → validateModPolicy item.modPolicy = .ok ())
    (hupdatedPolicies : ∀ position item,
      updatedGroup.element position = some item → validateModPolicy item.modPolicy = .ok ())
    {configUpdate : ConfigUpdate} (hcompute : compute vi.configProto updated = .ok configUpdate)
    {configtx : Envelope} {configUpdateEnv : ConfigUpdateEnvelope}
    (henvelope : codec.envelopeToConfigUpdate configtx = .ok configUpdateEnv)
    (hunmarshal : codec.unmarshalConfigUpdate configUpdateEnv.configUpdate =
      .ok { configUpdate with channelId := vi.channelID })
    {signedData : List SignedData}
    (hsigned : configUpdateEnvelopeAsSignedData codec configUpdateEnv = .ok signedData)
    (hsatisfied : ∀ position item,
      originalGroup.element position = some item →
        Satisfied vi.pm signedData (comparableAt [vi.nameSpace] position item)) :
    ∃ channelGroup,
      vi.proposeConfigUpdate codec configtx = .ok
          { config := some { sequence := uint64 (vi.sequence + 1)
                             channelGroup := some channelGroup }
            lastUpdate := some configtx } ∧
        SameUpToVersions channelGroup updatedGroup ∧
        ∀ position old new, originalGroup.element position = some old →
          channelGroup.element position = some new →
          new.version ≠ old.version → new.content ≠ old.content := by
  obtain ⟨_, _, hcur, hgrp, hdf, rfl⟩ := compute_eq_ok_iff.mp hcompute
  rw [horiginal] at hcur
  rw [hupdated] at hgrp
  cases hcur
  cases hgrp
  obtain ⟨hroot, hor, -⟩ := mapConfig_eq_ok_iff.mp (ValidatorImpl.mapped horiginal)
  have hrc := groupRecords_computeGroupUpdate
    (fun position item hel => ne_nil_of_validateModPolicy
      (hupdatedPolicies position item hel)) originalGroup
  obtain ⟨readSet, hrds⟩ := exists_mapConfig hroot (validNames_readGroup hrc.recorded hor)
  obtain ⟨writeSet, hwr⟩ := exists_mapConfig hroot (validNames_writeGroup hrc.recorded hor hnames)
  have hupd : RecordedUpdate vi originalGroup updatedGroup _ _ readSet writeSet :=
    ⟨horiginal, hrc.recorded, hnames, hrds, hwr⟩
  obtain ⟨position, hpos⟩ := hrc.updatedGroup.mp hdf
  obtain ⟨item, hit⟩ := (hrc.recorded position).covered hpos
  have hat : Authorizes codec vi configUpdateEnv _ readSet writeSet signedData :=
    { unmarshalled := hunmarshal
      channelId := rfl
      readSetMapped := hrds
      readSetVerified := hupd.readSetVerified
      writeSetMapped := hwr
      signed := hsigned
      deltaSetVerified := verifyDeltaSet_iff.mpr
        ⟨⟨_, _, hupd.get_delta.mpr ⟨position, item, hpos, hit, rfl, rfl⟩⟩, fun _ _ hget =>
            hupd.deltaAccepted hupdatedPolicies hsatisfied hget⟩
      fullVerified := hupd.fullVerified }
  have hset := allModPolicies_proposed horiginal hat fun position item hel =>
    ne_nil_of_validateModPolicy (horiginalPolicies position item hel)
  obtain ⟨channelGroup, hreb, heq, hvr⟩ := exists_proposed_tree hupd hset
  exact ⟨channelGroup, proposeConfigUpdate_eq_ok_iff.mpr
    ⟨configUpdateEnv, _, channelGroup, henvelope, authorizeUpdate_eq_ok_iff.mpr
      ⟨_, readSet, writeSet, signedData, hat, rfl⟩, hreb, rfl⟩,
    heq, hvr⟩

def computedSample : ConfigUpdate :=
  (compute (sampleConfig 1 [7]) (sampleConfig 4 [8])).toOption.getD
    { channelId := [], readSet := none, writeSet := none }

theorem proposeConfigUpdate_computedSample :
    ∃ channelGroup,
      sampleValidator.proposeConfigUpdate
          (sampleCodec { computedSample with channelId := ascii "ch" })
          { payload := [], signature := [] } = .ok
            { config := some { sequence := 6
                               channelGroup := some channelGroup }
              lastUpdate := some { payload := [], signature := [] } } ∧
        SameUpToVersions channelGroup (sampleGroup 4 [8]) ∧
        ∀ position old new, (sampleGroup 1 [7]).element position = some old →
          channelGroup.element position = some new →
          new.version ≠ old.version → new.content ≠ old.content := by
  have hnm : ValidNames (sampleGroup 4 [8]) :=
    ((forall_key_valid_iff (sampleGroup 4 [8]) (ascii "Channel")).mp (by decide +kernel)).2
  have hor := (forall_element_iff (sampleGroup 1 [7]) []
    fun it => validateModPolicy it.modPolicy = .ok ()).mpr (by decide +kernel)
  have hupd := (forall_element_iff (sampleGroup 4 [8]) []
    fun it => validateModPolicy it.modPolicy = .ok ()).mpr (by decide +kernel)
  have hcm : compute sampleValidator.configProto (sampleConfig 4 [8]) =
      .ok computedSample := eq_ok_of_isSome (by decide +kernel) _
  have hst : ∀ position it,
      (sampleGroup 1 [7]).element position = some it →
        Satisfied acceptingManager [] (comparableAt [ascii "Channel"] position it) := by
    intro position it hel
    have habs := (forall_element_iff (sampleGroup 1 [7]) []
      fun it => it.modPolicy.head? = some slash).mpr (by decide +kernel)
    refine ⟨{ evaluateSignedData := fun _ => .ok () }, ?_, rfl⟩
    rw [policyForItem, comparableAt_item, if_neg]
    · rfl
    · rintro ⟨-, hrl, -⟩
      exact hrl (habs position it hel)
  exact proposeConfigUpdate_compute _ sampleValidator rfl rfl hnm hor hupd hcm rfl rfl rfl hst

end FabricSequencer
