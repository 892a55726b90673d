import FabricSequencer.ConfigUpdateSoundness

/-!
# Computing a configuration update

`compute` compares two configurations and returns the read set and the write
set of an update that leads from the first to the second.  A group that keeps
its members and its `mod_policy` is recorded at its version, with the members
in which something differs.  A group that does not is recorded with all its
members.
-/

namespace FabricSequencer

open SortedMap List Option ConfigGroup ConfigPath ConfigItem

structure MapUpdate (V : Type) where
  readSet : SortedMap GoString V
  writeSet : SortedMap GoString V
  sameSet : SortedMap GoString V
  updatedMembers : Bool

inductive MemberUpdate (V : Type) where
  | same (kept : V)
  | changed (read : Option V) (written : V)

namespace MemberUpdate

variable {V : Type}

def sameSet : MemberUpdate V → Option V
  | .same kept => some kept
  | .changed _ _ => none

def readSet : MemberUpdate V → Option V
  | .same _ => none
  | .changed read _ => read

def writeSet : MemberUpdate V → Option V
  | .same _ => none
  | .changed _ written => some written

end MemberUpdate

def computeMapUpdate {V W : Type} (compare : V → W → MemberUpdate V) (add : W → V)
    (original : SortedMap GoString V) (updated : SortedMap GoString W) : MapUpdate V :=
  let members := original.mapFilter fun name old =>
    (updated.get name).map (compare old)
  let added := updated.mapFilter fun name new =>
    if (original.get name).isSome then none else some (add new)
  { readSet := members.mapFilter fun _ member => member.readSet
    writeSet := SortedMap.overlay some (members.mapFilter fun _ member => member.writeSet) added
    sameSet := members.mapFilter fun _ member => member.sameSet
    updatedMembers :=
      original.keys.any (fun name => (updated.get name).isNone) ||
        updated.keys.any (fun name => (original.get name).isNone) }

def comparePolicy (originalPolicy updatedPolicy : ConfigPolicy) : MemberUpdate ConfigPolicy :=
  if originalPolicy.modPolicy = updatedPolicy.modPolicy ∧
      originalPolicy.policy = updatedPolicy.policy then
    .same { version := originalPolicy.version, policy := none, modPolicy := [] }
  else
    .changed none { version := uint64 (originalPolicy.version + 1)
                    policy := updatedPolicy.policy
                    modPolicy := updatedPolicy.modPolicy }

def addPolicy (updatedPolicy : ConfigPolicy) : ConfigPolicy where
  version := 0
  policy := updatedPolicy.policy
  modPolicy := updatedPolicy.modPolicy

def computePoliciesMapUpdate (original updated : SortedMap GoString ConfigPolicy) :
    MapUpdate ConfigPolicy :=
  computeMapUpdate comparePolicy addPolicy original updated

def compareValue (originalValue updatedValue : ConfigValue) : MemberUpdate ConfigValue :=
  if originalValue.modPolicy = updatedValue.modPolicy ∧
      originalValue.value = updatedValue.value then
    .same { version := originalValue.version, value := [], modPolicy := [] }
  else
    .changed none { version := uint64 (originalValue.version + 1)
                    value := updatedValue.value
                    modPolicy := updatedValue.modPolicy }

def addValue (updatedValue : ConfigValue) : ConfigValue where
  version := 0
  value := updatedValue.value
  modPolicy := updatedValue.modPolicy

def computeValuesMapUpdate (original updated : SortedMap GoString ConfigValue) :
    MapUpdate ConfigValue :=
  computeMapUpdate compareValue addValue original updated

structure GroupUpdate where
  readSet : ConfigGroup
  writeSet : ConfigGroup
  updatedGroup : Bool

/-- A group of the updated configuration with what `computeGroupUpdate`
returns for it and any original group. -/
structure ComputedGroup where
  updatedGroup : ConfigGroup
  compute : ConfigGroup → GroupUpdate

def compareGroup (originalGroup : ConfigGroup) (computed : ComputedGroup) :
    MemberUpdate ConfigGroup :=
  let update := computed.compute originalGroup
  if update.updatedGroup then .changed (some update.readSet) update.writeSet
  else .same update.readSet

def addGroup (computed : ComputedGroup) : ConfigGroup :=
  let groupWriteSet := (computed.compute newConfigGroup).writeSet
  ConfigGroup.literal 0 groupWriteSet.groups groupWriteSet.values
    groupWriteSet.policies computed.updatedGroup.modPolicy

def computeGroupsMapUpdate (original : SortedMap GoString ConfigGroup)
    (updated : SortedMap GoString ComputedGroup) : MapUpdate ConfigGroup :=
  computeMapUpdate compareGroup addGroup original updated

namespace MapUpdate

variable {V : Type} (update : MapUpdate V)

def unmodified : Bool :=
  update.readSet.entries.length == 0 && update.writeSet.entries.length == 0

theorem empty_of_unmodified {update : MapUpdate V} (hun : update.unmodified = true) :
    update.readSet = empty ∧ update.writeSet = empty := by
  simp only [unmodified, Bool.and_eq_true, beq_iff_eq, length_eq_zero_iff] at hun
  exact ⟨ext_entries hun.1, ext_entries hun.2⟩

def readWithSame : SortedMap GoString V :=
  SortedMap.overlay some update.readSet update.sameSet

def writeWithSame : SortedMap GoString V :=
  SortedMap.overlay some update.writeSet update.sameSet

end MapUpdate

variable (original orig updated upd : ConfigGroup)

def assembleGroupUpdate (policies : MapUpdate ConfigPolicy) (values : MapUpdate ConfigValue)
    (groups : MapUpdate ConfigGroup) : GroupUpdate :=
  if !(policies.updatedMembers || values.updatedMembers ||
      groups.updatedMembers || original.modPolicy != updated.modPolicy) then
    if policies.unmodified && values.unmodified && groups.unmodified then
      { readSet := ConfigGroup.literal original.version SortedMap.empty
          SortedMap.empty SortedMap.empty []
        writeSet := ConfigGroup.literal original.version SortedMap.empty
          SortedMap.empty SortedMap.empty []
        updatedGroup := false }
    else
      { readSet := ConfigGroup.literal original.version groups.readSet
          values.readSet policies.readSet []
        writeSet := ConfigGroup.literal original.version groups.writeSet
          values.writeSet policies.writeSet []
        updatedGroup := true }
  else
    { readSet := ConfigGroup.literal original.version groups.readWithSame
        values.readWithSame policies.readWithSame []
      writeSet := ConfigGroup.literal (uint64 (original.version + 1))
        groups.writeWithSame values.writeWithSame policies.writeWithSame
        updated.modPolicy
      updatedGroup := true }

/-- The recursion is over the groups of `updated`. -/
def computeGroupUpdate : GroupUpdate :=
  LabelledTree.recurse (fun updated computeGroups original =>
      assembleGroupUpdate original updated
        (computePoliciesMapUpdate (ConfigGroup.policies original) (ConfigGroup.policies updated))
        (computeValuesMapUpdate (ConfigGroup.values original) (ConfigGroup.values updated))
        (computeGroupsMapUpdate (ConfigGroup.groups original)
          ((ConfigGroup.groups updated).mapFilter fun groupName group =>
            (computeGroups.get groupName).map fun compute =>
              { updatedGroup := group, compute := compute })))
    updated original

def compute (original updated : Config) : Outcome ConfigUpdate :=
  match original.channelGroup with
  | none => .error (.error "no channel group included for original config")
  | some originalGroup =>
    match updated.channelGroup with
    | none => .error (.error "no channel group included for updated config")
    | some updatedGroup =>
      let update := computeGroupUpdate originalGroup updatedGroup
      if !update.updatedGroup then
        .error (.error "no differences detected between original and updated config")
      else
        .ok { channelId := [], readSet := some update.readSet
              writeSet := some update.writeSet }

def computed (updatedGroup : ConfigGroup) : ComputedGroup where
  updatedGroup := updatedGroup
  compute := fun originalGroup => computeGroupUpdate originalGroup updatedGroup

abbrev policiesUpdate : MapUpdate ConfigPolicy :=
  computeMapUpdate comparePolicy addPolicy original.policies updated.policies

abbrev valuesUpdate : MapUpdate ConfigValue :=
  computeMapUpdate compareValue addValue original.values updated.values

abbrev groupsUpdate : MapUpdate ConfigGroup :=
  computeMapUpdate compareGroup addGroup original.groups (updated.groups.map computed)

theorem computeGroupUpdate_eq :
    computeGroupUpdate orig upd =
      assembleGroupUpdate orig upd (policiesUpdate orig upd)
        (valuesUpdate orig upd) (groupsUpdate orig upd) := by
  have hgr : (upd.groups.mapFilter fun groupName g =>
      ((upd.children.map fun g orig =>
          computeGroupUpdate orig g).get groupName).map fun compute =>
        ComputedGroup.mk g compute) = upd.groups.map computed := by
    apply SortedMap.ext_get
    intro name
    rw [SortedMap.get_mapFilter, SortedMap.get_map, SortedMap.get_map]
    change (upd.children.get name).bind _ = (upd.children.get name).map computed
    cases hg : upd.children.get name with
    | none | some => rfl
  rw [groupsUpdate, ← hgr, computeGroupUpdate, LabelledTree.recurse_eq]
  rfl

def DiffersAt (original updated : Option ConfigItem) : Prop :=
  ∃ new, updated = some new ∧ ∀ old, original = some old → old.content ≠ new.content

def nextVersion : Option ConfigItem → ℕ
  | none => 0
  | some old => uint64 (old.version + 1)

structure RecordsAt (original updated read written : Option ConfigItem) : Prop where
  covered : DiffersAt original updated → ∃ item, written = some item
  changed : ∀ item, written = some item → DiffersAt original updated →
    ∃ new, updated = some new ∧ item.own = new.own.withVersion (nextVersion original)
  kept : ∀ item, written = some item → ¬ DiffersAt original updated →
    ∃ old other, original = some old ∧ read = some other ∧
      old.version = item.version ∧ other.version = item.version
  current : ∀ item, read = some item → ∃ old, original = some old ∧ old.version = item.version

theorem not_differsAt_none (orig : Option ConfigItem) : ¬ DiffersAt orig none := by
  rintro ⟨_, hn, -⟩
  cases hn

theorem differsAt_some_some {old new : ConfigItem} :
    DiffersAt (some old) (some new) ↔ old.content ≠ new.content := by
  simp [DiffersAt]

theorem differsAt_none_some (new : ConfigItem) : DiffersAt none (some new) := by
  simp [DiffersAt]

theorem recordsAt_none {orig upd : Option ConfigItem} (heq : ¬ DiffersAt orig upd) :
    RecordsAt orig upd none none where
  covered hdiff := absurd hdiff heq
  changed item hitem := by cases hitem
  kept item hitem := by cases hitem
  current item hitem := by cases hitem

/-! ## Maps -/

open MemberUpdate

section Maps

variable {V W : Type} {compare : V → W → MemberUpdate V} {add : W → V}
  {orig : SortedMap GoString V} {upd : SortedMap GoString W} {name : GoString}

theorem get_readSet_computeMapUpdate :
    (computeMapUpdate compare add orig upd).readSet.get name =
      (orig.get name).bind fun old => (upd.get name).bind fun new =>
        (compare old new).readSet := by
  simp only [computeMapUpdate, get_mapFilter, bind_assoc, bind_map]
  rfl

theorem get_sameSet_computeMapUpdate :
    (computeMapUpdate compare add orig upd).sameSet.get name =
      (orig.get name).bind fun old => (upd.get name).bind fun new =>
        (compare old new).sameSet := by
  simp only [computeMapUpdate, get_mapFilter, bind_assoc, bind_map]
  rfl

theorem get_writeSet_computeMapUpdate :
    (computeMapUpdate compare add orig upd).writeSet.get name =
      match orig.get name with
      | none => (upd.get name).map add
      | some old => (upd.get name).bind fun new =>
        (compare old new).writeSet := by
  simp only [computeMapUpdate, get_overlay, get_mapFilter]
  cases orig.get name with
  | none | some => cases upd.get name <;> rfl

theorem updatedMembers_eq_false_iff :
    (computeMapUpdate compare add orig upd).updatedMembers = false ↔ orig.keys = upd.keys := by
  rw [SortedMap.keys_eq_keys_iff]
  simp only [computeMapUpdate, Bool.or_eq_false_iff, List.any_eq_false,
    Option.isNone_iff_eq_none, SortedMap.mem_keys_iff]
  constructor
  · rintro ⟨hor, hu⟩ key
    constructor
    · intro hno
      by_contra hsome
      exact hu key (Option.ne_none_iff_exists'.mp hsome) hno
    · intro hno
      by_contra hsome
      exact hor key (Option.ne_none_iff_exists'.mp hsome) hno
  · intro hky
    constructor
    · rintro key ⟨_, hl⟩ hno
      rw [(hky key).mpr hno] at hl
      cases hl
    · rintro key ⟨_, hn⟩ hno
      rw [(hky key).mp hno] at hn
      cases hn

theorem keys_writeWithSame :
    (computeMapUpdate compare add orig upd).writeWithSame.keys = upd.keys := by
  rw [keys_eq_keys_iff]
  intro key
  rw [MapUpdate.writeWithSame, get_overlay,
    get_sameSet_computeMapUpdate, get_writeSet_computeMapUpdate]
  cases orig.get key with
  | none => cases upd.get key <;> simp
  | some old =>
    cases upd.get key with
    | none => simp
    | some new =>
      cases hc : compare old new <;>
        simp [hc, sameSet, writeSet]

variable {P : Type} {elementOf : V → P → Option ConfigItem}
  {updatedElementOf : W → P → Option ConfigItem}

structure MemberRecords (compare : V → W → MemberUpdate V) (add : W → V)
    (elementOf : V → P → Option ConfigItem)
    (updatedElementOf : W → P → Option ConfigItem) (new : W) : Prop where
  same : ∀ old kept, compare old new = .same kept → ∀ position,
    ¬ DiffersAt (elementOf old position) (updatedElementOf new position) ∧
      RecordsAt (elementOf old position) (updatedElementOf new position)
        (elementOf kept position) (elementOf kept position)
  differs : ∀ old read written, compare old new = .changed read written →
    ∃ position, DiffersAt (elementOf old position) (updatedElementOf new position)
  changed : ∀ old read written, compare old new = .changed read written →
    ∀ position,
      RecordsAt (elementOf old position) (updatedElementOf new position)
        (read.bind fun member => elementOf member position)
        (elementOf written position)
  added : ∀ position,
    RecordsAt none (updatedElementOf new position) none (elementOf (add new) position)

section Recorded

variable (hrc : ∀ new, upd.get name = some new →
  MemberRecords compare add elementOf updatedElementOf new)
  (pos : P)

include hrc

theorem recordsAt_readSet_writeSet (hky : orig.get name = none ↔ upd.get name = none) :
    RecordsAt ((orig.get name).bind (elementOf · pos))
      ((upd.get name).bind (updatedElementOf · pos))
      (((computeMapUpdate compare add orig upd).readSet.get name).bind (elementOf · pos))
      (((computeMapUpdate compare add orig upd).writeSet.get name).bind (elementOf · pos)) := by
  rw [get_readSet_computeMapUpdate, get_writeSet_computeMapUpdate]
  cases hl : orig.get name with
  | none =>
    rw [hky.mp hl]
    exact recordsAt_none (not_differsAt_none _)
  | some old =>
    cases hn : upd.get name with
    | none =>
      rw [hky.mpr hn] at hl
      cases hl
    | some new =>
      cases hc : compare old new with
      | same kept =>
        simpa [hc, readSet, writeSet] using recordsAt_none ((hrc new hn).same old kept hc pos).1
      | changed read wr =>
        simpa [hc, readSet, writeSet] using (hrc new hn).changed old read wr hc pos

theorem recordsAt_withSame :
    RecordsAt ((orig.get name).bind (elementOf · pos))
      ((upd.get name).bind (updatedElementOf · pos))
      (((computeMapUpdate compare add orig upd).readWithSame.get name).bind (elementOf · pos))
      (((computeMapUpdate compare add orig upd).writeWithSame.get
        name).bind (elementOf · pos)) := by
  rw [MapUpdate.readWithSame, MapUpdate.writeWithSame, get_overlay, get_overlay,
    get_readSet_computeMapUpdate, get_sameSet_computeMapUpdate, get_writeSet_computeMapUpdate]
  cases orig.get name with
  | none =>
    cases hn : upd.get name with
    | none => exact recordsAt_none (not_differsAt_none _)
    | some new => simpa using (hrc new hn).added pos
  | some old =>
    cases hn : upd.get name with
    | none => exact recordsAt_none (not_differsAt_none _)
    | some new =>
      cases hc : compare old new with
      | same kept =>
        simpa [hc, sameSet] using ((hrc new hn).same old kept hc pos).2
      | changed read wr =>
        cases read <;>
          simpa [hc, sameSet, readSet, writeSet] using (hrc new hn).changed old _ wr hc pos

end Recorded

theorem unmodified_iff (hky : orig.keys = upd.keys)
    (hrc : ∀ name new, upd.get name = some new →
      MemberRecords compare add elementOf updatedElementOf new) :
    (computeMapUpdate compare add orig upd).unmodified = true ↔
      ∀ name pos,
        ¬ DiffersAt ((orig.get name).bind (elementOf · pos))
          ((upd.get name).bind (updatedElementOf · pos)) := by
  have hey : ∀ {U : Type} (map : SortedMap GoString U),
      map.entries.length = 0 ↔ ∀ key, map.get key = none := by
    intro _ _
    simp only [length_eq_zero_iff, get_eq_none_iff]
    constructor
    · intro hnil _ _
      simp [hnil]
    · intro hno
      rw [eq_nil_iff_forall_not_mem]
      rintro ⟨key, v⟩
      exact hno key v
  rw [keys_eq_keys_iff] at hky
  simp only [MapUpdate.unmodified, Bool.and_eq_true, beq_iff_eq, hey,
    get_readSet_computeMapUpdate, get_writeSet_computeMapUpdate]
  constructor
  · rintro ⟨-, hwt⟩ name pos
    cases hn : upd.get name with
    | none => exact not_differsAt_none _
    | some new =>
      cases hl : orig.get name with
      | none =>
        rw [(hky name).mp hl] at hn
        cases hn
      | some old =>
        have hwr := hwt name
        rw [hl, hn] at hwr
        cases hc : compare old new with
        | same kept => exact ((hrc name new hn).same old kept hc pos).1
        | changed => simp [hc, writeSet] at hwr
  · intro heq
    have hm : ∀ name old new, orig.get name = some old →
        upd.get name = some new → ∃ kept, compare old new = .same kept := by
      intro name old new hl hn
      cases hc : compare old new with
      | same kept => exact ⟨kept, rfl⟩
      | changed read wr =>
        obtain ⟨pos, hdf⟩ := (hrc name new hn).differs old read wr hc
        have hb := heq name pos
        rw [hl, hn] at hb
        exact absurd hdf hb
    rw [← forall_and]
    intro name
    cases hl : orig.get name with
    | none => simp [(hky name).mp hl]
    | some old =>
      cases hn : upd.get name with
      | none => exact ⟨rfl, rfl⟩
      | some new =>
        obtain ⟨_, hc⟩ := hm name old new hl hn
        simp [hc, readSet, writeSet]

end Maps

theorem content_configValue_eq_iff {first b : ConfigValue} :
    (configValue first).content = (configValue b).content ↔
      first.modPolicy = b.modPolicy ∧ first.value = b.value := by
  simp [content, own, OwnFields.withVersion, and_comm]

theorem content_configPolicy_eq_iff {first b : ConfigPolicy} :
    (configPolicy first).content = (configPolicy b).content ↔
      first.modPolicy = b.modPolicy ∧ first.policy = b.policy := by
  simp [content, own, OwnFields.withVersion, and_comm]

theorem recordsAt_same {old new read wr : ConfigItem} (hcn : old.content = new.content)
    (hrd : read.version = old.version) (hwr : wr.version = old.version) :
    RecordsAt (some old) (some new) (some read) (some wr) where
  covered hdiff := absurd hcn (differsAt_some_some.mp hdiff)
  changed item _ hdiff := absurd hcn (differsAt_some_some.mp hdiff)
  kept item hitem _ := by
    cases hitem
    exact ⟨old, read, rfl, rfl, hwr.symm, hrd.trans hwr.symm⟩
  current item hitem := by
    cases hitem
    exact ⟨old, rfl, hrd.symm⟩

theorem recordsAt_written {orig read : Option ConfigItem} {new wr : ConfigItem}
    (hdf : DiffersAt orig (some new)) (hw : wr.own = new.own.withVersion (nextVersion orig))
    (hrd : ∀ it, read = some it → ∃ old, orig = some old ∧ old.version = it.version) :
    RecordsAt orig (some new) read (some wr) where
  covered _ := ⟨wr, rfl⟩
  changed it hit _ := by
    cases hit
    exact ⟨new, rfl, hw⟩
  kept it _ heq := absurd hdf heq
  current := hrd

/-- A value and a policy are compared and recorded alike. -/
theorem memberRecords_leaf {V : Type} {it : V → ConfigItem} {compare : V → V → MemberUpdate V}
    {add kept wr : V → V} {new : V}
    (hc : ∀ old, compare old new =
      if (it old).content = (it new).content then .same (kept old)
      else .changed none (wr old))
    (hkp : ∀ old, (it (kept old)).version = (it old).version)
    (hwr : ∀ old, (it (wr old)).own = (it new).own.withVersion (nextVersion (some (it old))))
    (ha : (it (add new)).own = (it new).own.withVersion (nextVersion none)) :
    MemberRecords compare add (fun member (_ : Unit) => some (it member))
      (fun member _ => some (it member)) new where
  same old _ heq _ := by
    rw [hc] at heq
    split_ifs at heq with hcn
    cases heq
    exact ⟨fun hdf => differsAt_some_some.mp hdf hcn, recordsAt_same hcn (hkp old) (hkp old)⟩
  differs old _ _ hchanged := by
    rw [hc] at hchanged
    split_ifs at hchanged with hcn
    exact ⟨(), differsAt_some_some.mpr hcn⟩
  changed old _ _ hchanged _ := by
    rw [hc] at hchanged
    split_ifs at hchanged with hcn
    cases hchanged
    exact recordsAt_written (differsAt_some_some.mpr hcn) (hwr old) (by simp)
  added _ := recordsAt_written (differsAt_none_some _) ha (by simp)

theorem memberRecords_value (new : ConfigValue) :
    MemberRecords compareValue addValue (fun v (_ : Unit) => some (.configValue v))
      (fun v _ => some (.configValue v)) new := by
  apply memberRecords_leaf
  · intro old
    simp only [compareValue, content_configValue_eq_iff]
    rfl
  all_goals intros; rfl

theorem memberRecords_policy (new : ConfigPolicy) :
    MemberRecords comparePolicy addPolicy (fun policy (_ : Unit) => some (.configPolicy policy))
      (fun policy _ => some (.configPolicy policy)) new := by
  apply memberRecords_leaf
  · intro old
    simp only [comparePolicy, content_configPolicy_eq_iff]
    rfl
  all_goals intros; rfl

/-! ## What is recorded of a group -/

def groupDiffers : Prop :=
  (ConfigItem.configGroup original).content ≠ (ConfigItem.configGroup updated).content

theorem groupDiffers_iff {orig upd : ConfigGroup} :
    groupDiffers orig upd ↔
      ¬ (orig.modPolicy = upd.modPolicy ∧ orig.groups.keys = upd.groups.keys ∧
        orig.values.keys = upd.values.keys ∧
        orig.policies.keys = upd.policies.keys) := by
  simp [groupDiffers, content, own, OwnFields.withVersion]

structure GroupRecords (update : GroupUpdate) : Prop where
  updatedGroup : update.updatedGroup = true ↔
    ∃ position, DiffersAt (original.element position) (updated.element position)
  recorded : ∀ position,
    RecordsAt (original.element position) (updated.element position)
      (update.readSet.element position) (update.writeSet.element position)

theorem keys_map {V W : Type} (rewrite : V → W) (source : SortedMap GoString V) :
    (source.map rewrite).keys = source.keys := by
  rw [keys_eq_keys_iff]
  intro key
  rw [SortedMap.get_map, map_eq_none_iff]

section OneGroup

variable {orig updated upd : ConfigGroup}

theorem not_updatedMembers_iff :
    (!((policiesUpdate orig upd).updatedMembers || (valuesUpdate orig upd).updatedMembers ||
        (groupsUpdate orig upd).updatedMembers ||
        orig.modPolicy != upd.modPolicy)) = true ↔
      ¬ groupDiffers orig upd := by
  rw [groupDiffers_iff, not_not, Bool.not_eq_true', Bool.or_eq_false_iff,
    Bool.or_eq_false_iff, Bool.or_eq_false_iff,
    updatedMembers_eq_false_iff, updatedMembers_eq_false_iff,
    updatedMembers_eq_false_iff, keys_map, bne_eq_false_iff_eq]
  tauto

theorem forall_position_iff {property : ConfigPath → Prop} :
    (∀ pos, property pos) ↔
      property (.group []) ∧ (∀ name (_ : Unit), property (.value [] name)) ∧
        (∀ name (_ : Unit), property (.policy [] name)) ∧
        ∀ name (pos : ConfigPath), property (pos.within name) := by
  constructor
  · intro ha
    exact ⟨ha _, fun name _ => ha _, fun name _ => ha _, fun name pos => ha _⟩
  · rintro ⟨hroot, hval, hpol, hwithin⟩ pos
    exact induction_within hroot (fun name => hval name ())
      (fun name => hpol name ()) (fun name pos _ =>
        hwithin name pos) pos

theorem element_value_eq_bind (g : ConfigGroup) (name : GoString) :
    g.element (.value [] name) = (g.values.get name).bind fun v => some (.configValue v) := by
  rw [element_value_nil, map_eq_bind]
  rfl

theorem element_policy_eq_bind (g : ConfigGroup) (name : GoString) :
    g.element (.policy [] name) = (g.policies.get name).bind fun policy =>
        some (.configPolicy policy) := by
  rw [element_policy_nil, map_eq_bind]
  rfl

theorem updated_element_within (upd : ConfigGroup) (name : GoString) (pos : ConfigPath) :
    upd.element (pos.within name) = ((upd.groups.map computed).get name).bind fun g =>
        g.updatedGroup.element pos := by
  rw [element_within, SortedMap.get_map, bind_map]
  rfl

def GroupMembersRecorded (updated : ConfigGroup) : Prop :=
  ∀ name new, (updated.groups.map computed).get name = some new →
    MemberRecords compareGroup addGroup ConfigGroup.element
      (fun group position => group.updatedGroup.element position) new

variable (hmems : GroupMembersRecorded upd)

include hmems

theorem not_differs_iff (heq : ¬ groupDiffers orig upd) :
    ((policiesUpdate orig upd).unmodified && (valuesUpdate orig upd).unmodified &&
        (groupsUpdate orig upd).unmodified) = true ↔
      ∀ pos, ¬ DiffersAt (orig.element pos) (upd.element pos) := by
  have hky := not_not.mp (mt groupDiffers_iff.mpr heq)
  obtain ⟨-, hgr, hvl, hpl⟩ := hky
  have hroot : ¬ DiffersAt (orig.element (.group [])) (upd.element (.group [])) := by
    rw [element_root, element_root, differsAt_some_some]
    exact heq
  rw [← keys_map computed upd.groups] at hgr
  rw [forall_position_iff]
  simp only [hroot, not_false_eq_true, true_and, element_value_eq_bind,
    element_policy_eq_bind, updated_element_within upd]
  rw [Bool.and_eq_true, Bool.and_eq_true,
    unmodified_iff hpl fun _ new _ => memberRecords_policy new,
    unmodified_iff hvl fun _ new _ => memberRecords_value new,
    unmodified_iff hgr hmems]
  simp only [element_within]
  tauto

theorem recordsAt_of_same (heq : ¬ groupDiffers orig upd) (pos : ConfigPath) :
    RecordsAt (orig.element pos) (upd.element pos)
      ((literal orig.version (groupsUpdate orig upd).readSet
        (valuesUpdate orig upd).readSet (policiesUpdate orig upd).readSet
        []).element pos)
      ((literal orig.version (groupsUpdate orig upd).writeSet
        (valuesUpdate orig upd).writeSet (policiesUpdate orig upd).writeSet
        []).element pos) := by
  have hky := not_not.mp (mt groupDiffers_iff.mpr heq)
  obtain ⟨-, hgr, hvl, hpl⟩ := hky
  rw [← keys_map computed upd.groups] at hgr
  rw [keys_eq_keys_iff] at hgr hvl hpl
  revert pos
  rw [forall_position_iff]
  refine ⟨?_, ?_, ?_, ?_⟩
  · simp only [element_root]
    exact recordsAt_same (not_not.mp heq) rfl rfl
  · intro name pos
    simp only [element_value_eq_bind, values_literal]
    exact recordsAt_readSet_writeSet (fun new _ => memberRecords_value new) pos (hvl name)
  · intro name pos
    simp only [element_policy_eq_bind, policies_literal]
    exact recordsAt_readSet_writeSet (fun new _ => memberRecords_policy new) pos (hpl name)
  · intro name pos
    rw [updated_element_within upd, element_within, element_within, element_within,
      groups_literal, groups_literal]
    exact recordsAt_readSet_writeSet (hmems name) pos (hgr name)

theorem recordsAt_of_differs (hdf : groupDiffers orig upd) (pos : ConfigPath) :
    RecordsAt (orig.element pos) (upd.element pos)
      ((literal orig.version (groupsUpdate orig upd).readWithSame
        (valuesUpdate orig upd).readWithSame
        (policiesUpdate orig upd).readWithSame []).element pos)
      ((literal (uint64 (orig.version + 1)) (groupsUpdate orig upd).writeWithSame
        (valuesUpdate orig upd).writeWithSame
        (policiesUpdate orig upd).writeWithSame upd.modPolicy).element pos) := by
  revert pos
  rw [forall_position_iff]
  refine ⟨?_, ?_, ?_, ?_⟩
  · simp only [element_root]
    apply recordsAt_written
    · exact differsAt_some_some.mpr hdf
    · simp only [own, version_literal, modPolicy_literal, groups_literal,
        values_literal, policies_literal, keys_writeWithSame, keys_map]
      rfl
    · intro _ hit
      cases hit
      exact ⟨_, rfl, rfl⟩
  · intro _ pos
    simp only [element_value_eq_bind, values_literal]
    exact recordsAt_withSame (fun new _ => memberRecords_value new) pos
  · intro _ pos
    simp only [element_policy_eq_bind, policies_literal]
    exact recordsAt_withSame (fun new _ => memberRecords_policy new) pos
  · intro name pos
    rw [updated_element_within upd, element_within, element_within, element_within,
      groups_literal, groups_literal]
    exact recordsAt_withSame (hmems name) pos

theorem groupRecords_step : GroupRecords orig upd (computeGroupUpdate orig upd) := by
  rw [computeGroupUpdate_eq, assembleGroupUpdate]
  by_cases hdf : groupDiffers orig upd
  · rw [if_neg (mt not_updatedMembers_iff.mp (not_not.mpr hdf))]
    refine ⟨?_, recordsAt_of_differs hmems hdf⟩
    simp only [true_iff]
    exact ⟨.group [], by
      rw [element_root, element_root]
      exact differsAt_some_some.mpr hdf⟩
  rw [if_pos (not_updatedMembers_iff.mpr hdf)]
  have hf := not_differs_iff hmems hdf
  split_ifs with hunmodified
  · have hno := hf.mp hunmodified
    have hrc := recordsAt_of_same hmems hdf
    rw [Bool.and_eq_true, Bool.and_eq_true] at hunmodified
    obtain ⟨⟨hpl, hvl⟩, hgrps⟩ := hunmodified
    rw [(MapUpdate.empty_of_unmodified hpl).1, (MapUpdate.empty_of_unmodified hpl).2,
      (MapUpdate.empty_of_unmodified hvl).1,
      (MapUpdate.empty_of_unmodified hvl).2,
      (MapUpdate.empty_of_unmodified hgrps).1,
      (MapUpdate.empty_of_unmodified hgrps).2] at hrc
    exact ⟨by simpa using hno, hrc⟩
  · refine ⟨?_, recordsAt_of_same hmems hdf⟩
    simp only [true_iff]
    by_contra hno
    exact hunmodified (hf.mpr (not_exists.mp hno))

end OneGroup

theorem element_newConfigGroup {pos : ConfigPath} (hp : pos ≠ .group []) :
    newConfigGroup.element pos = none := by
  induction pos using induction_within with
  | hroot => exact absurd rfl hp
  | hval | hpol => simp [newConfigGroup]
  | hwithin => simp [element_within, newConfigGroup]

theorem element_addGroup (computed : ComputedGroup) {pos : ConfigPath} (hp : pos ≠ .group []) :
    (addGroup computed).element pos = (computed.compute newConfigGroup).writeSet.element pos := by
  induction pos using induction_within with
  | hroot => exact absurd rfl hp
  | hval | hpol => simp [addGroup]
  | hwithin => simp [element_within, addGroup]

theorem memberRecords_group {upd : ConfigGroup} (hs : upd.modPolicy ≠ [])
    (hrc : ∀ orig, GroupRecords orig upd (computeGroupUpdate orig upd)) :
    MemberRecords compareGroup addGroup element (fun g pos => g.updatedGroup.element pos)
      (computed upd) := by
  refine ⟨?_, ?_, ?_, ?_⟩
  · intro old _ hc pos
    unfold compareGroup at hc
    dsimp only [computed] at hc ⊢
    split_ifs at hc with hupd
    cases hc
    have heq : ¬ DiffersAt (old.element pos) (upd.element pos) := by
      intro hdf
      exact hupd ((hrc old).updatedGroup.mpr ⟨pos, hdf⟩)
    refine ⟨heq, fun hdf => absurd hdf heq, fun _ _ hdf => absurd hdf heq, ?_,
      ((hrc old).recorded pos).current⟩
    intro it hit _
    obtain ⟨other, ho, hv⟩ := ((hrc old).recorded pos).current it hit
    exact ⟨other, it, ho, hit, hv, rfl⟩
  · intro old _ _ hc
    unfold compareGroup at hc
    dsimp only [computed] at hc ⊢
    split_ifs at hc with hupd
    exact (hrc old).updatedGroup.mp hupd
  · intro old _ _ hc pos
    unfold compareGroup at hc
    dsimp only [computed] at hc ⊢
    split_ifs at hc with hupd
    cases hc
    exact (hrc old).recorded pos
  · intro pos
    have hr := (hrc newConfigGroup).recorded pos
    by_cases hp : pos = .group []
    · subst hp
      simp only [element_root] at hr ⊢
      have hdf : DiffersAt (some (.configGroup newConfigGroup)) (some (.configGroup upd)) := by
        apply differsAt_some_some.mpr
        apply groupDiffers_iff.mpr
        rintro ⟨hmd, -⟩
        exact hs hmd.symm
      obtain ⟨_, hn, hw⟩ := hr.changed _ rfl hdf
      cases hn
      apply recordsAt_written (differsAt_none_some _) _ (by
        intro _ hit
        cases hit)
      simp only [own, OwnFields.withVersion, OwnFields.group.injEq] at hw
      obtain ⟨-, -, hgr, hvl, hpl⟩ := hw
      simp only [own, addGroup, computed, version_literal,
        modPolicy_literal, groups_literal, values_literal, policies_literal, hgr, hvl, hpl]
      rfl
    · rw [element_newConfigGroup hp] at hr
      rw [element_addGroup (computed upd) hp]
      refine ⟨hr.covered, hr.changed, ?_, ?_⟩
      · intro it hit heq
        obtain ⟨_, _, hl, -⟩ := hr.kept it hit heq
        cases hl
      · intro _ hit
        cases hit

/-- `computeGroupUpdate` writes exactly the elements that differ, each at its
next version, and records others only at their present version. -/
theorem groupRecords_computeGroupUpdate {upd : ConfigGroup}
    (hs : ∀ pos it, upd.element pos = some it → it.modPolicy ≠ []) (orig : ConfigGroup) :
    GroupRecords orig upd (computeGroupUpdate orig upd) := by
  induction upd using induction generalizing orig with
  | hstep _ ih =>
    apply groupRecords_step
    intro name _ hn
    rw [SortedMap.get_map, map_eq_some_iff] at hn
    obtain ⟨inn, hin, rfl⟩ := hn
    have hst : ∀ pos it, inn.element pos = some it → it.modPolicy ≠ [] := by
      intro pos it hel
      apply hs (pos.within name) it
      rw [element_within, hin]
      exact hel
    apply memberRecords_group
    · exact hst (.group []) _ (element_root inn)
    · exact ih name inn hin hst

end FabricSequencer
