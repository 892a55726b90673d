import FabricSequencer.ConfigMap

/-!
# Trees built from flat maps

A tree that `configMapToConfig` builds takes every element from the map, under
the full path of the element.  Conversely it builds a tree from every map that
has an element for each child that a group names.
-/

namespace FabricSequencer

open SortedMap List Option ConfigGroup ConfigItem ConfigPath

variable {configMap cm : ConfigMap}

theorem length_le_longestKey {key : GoString} {cg : Comparable} (hg : cm.get key = some cg) :
    key.length ≤ longestKey cm :=
  le_max_of_le (mem_map_of_mem (mem_keys_iff.mpr ⟨cg, hg⟩)) le_rfl

theorem rebuildGroup_congr {first second : GoString → Outcome ConfigGroup} {path : GoString}
    (heq : ∀ cg, cm.get (groupPrefix ++ path) = some cg →
      ∀ key, first (path ++ pathSeparator ++ key) = second (path ++ pathSeparator ++ key)) :
    rebuildGroup cm first path = rebuildGroup cm second path := by
  unfold rebuildGroup
  dsimp only
  cases hg : cm.get (groupPrefix ++ path) with
  | none => rfl
  | some cg => simp only [heq cg hg]

section

variable (configMap cm : ConfigMap)

theorem recurseWithin_succ {depth : ℕ} (hp : 0 < depth) {path : GoString}
    (hdp : longestKey cm + 1 < depth + (groupPrefix ++ path).length) :
    recurseWithin cm (depth + 1) path = recurseWithin cm depth path := by
  induction depth generalizing path with
  | zero => cases hp
  | succ _ ih =>
    rw [recurseWithin, recurseWithin]
    apply rebuildGroup_congr
    intro _ hg _
    have hsh := length_le_longestKey hg
    apply ih (by omega)
    simp only [length_append, pathSeparator, length_singleton] at hdp ⊢
    omega

theorem recurseConfigMap_eq (path : GoString) :
    recurseConfigMap cm path = rebuildGroup cm (recurseConfigMap cm) path := by
  rw [recurseConfigMap, recurseWithin]
  apply rebuildGroup_congr
  intro _ _ _
  symm
  apply recurseWithin_succ cm (Nat.succ_pos _)
  simp only [length_append, pathSeparator, length_singleton]
  omega

/-- The `mod_policy` that a rebuilt element gets. -/
def settledModPolicy (modPolicy : GoString) : GoString :=
  if (configMap.get hackyFixOrdererCapabilities).isSome then
    fixModPolicy modPolicy
  else modPolicy

structure Rebuilds (recurseGroup : GoString → Outcome ConfigGroup) (path : GoString)
    (group result : ConfigGroup) : Prop where
  version : result.version = group.version
  modPolicy : result.modPolicy = settledModPolicy configMap group.modPolicy
  groups : ∀ key,
    (group.groups.get key = none ∧ result.groups.get key = none) ∨
      ∃ old new, group.groups.get key = some old ∧
        recurseGroup (path ++ pathSeparator ++ key) = .ok new ∧
        result.groups.get key = some new
  values : ∀ key,
    (group.values.get key = none ∧ result.values.get key = none) ∨
      ∃ old new, group.values.get key = some old ∧ lookupValue configMap path key = .ok new ∧
        result.values.get key = some { new with
          modPolicy := settledModPolicy configMap new.modPolicy }
  policies : ∀ key,
    (group.policies.get key = none ∧ result.policies.get key = none) ∨
      ∃ old new, group.policies.get key = some old ∧ lookupPolicy configMap path key = .ok new ∧
        result.policies.get key = some { new with
          modPolicy := settledModPolicy configMap new.modPolicy }

end

section OneGroup

variable {configMap cm : ConfigMap} {recurseGroup : GoString → Outcome ConfigGroup}
  {path : GoString} {g : ConfigGroup} {groups : SortedMap GoString ConfigGroup}
  {values : SortedMap GoString ConfigValue} {policies : SortedMap GoString ConfigPolicy}

def finishGroup (configMap : ConfigMap) (newGroup : ConfigGroup) : ConfigGroup :=
  if (configMap.get hackyFixOrdererCapabilities).isSome then hackyFix newGroup
  else newGroup

theorem rebuilds_finishGroup (hgr : (g.groups.traverse fun key _ =>
      recurseGroup (path ++ pathSeparator ++ key)) = .ok groups)
    (hvl : (g.values.traverse fun key _ =>
      lookupValue cm path key) = .ok values)
    (hpl : (g.policies.traverse fun key _ =>
      lookupPolicy cm path key) = .ok policies) :
    Rebuilds cm recurseGroup path g
      (finishGroup cm (ConfigGroup.literal g.version groups values policies g.modPolicy)) := by
  have hg := traverse_get hgr
  have hval := traverse_get hvl
  have hpol := traverse_get hpl
  unfold finishGroup
  split_ifs with hf
  · refine ⟨rfl, by simp [hackyFix, settledModPolicy, hf], ?_, ?_, ?_⟩
    · intro key
      simpa [hackyFix] using hg key
    · intro key
      rcases hval key with ⟨hno, hr⟩ | ⟨old, new, hl, hn, hr⟩
      · exact .inl ⟨hno, by simp [hackyFix, hr]⟩
      · exact .inr ⟨old, new, hl, hn, by simp [hackyFix, hr, settledModPolicy, hf]⟩
    · intro key
      rcases hpol key with ⟨hno, hr⟩ | ⟨old, new, hl, hn, hr⟩
      · exact .inl ⟨hno, by simp [hackyFix, hr]⟩
      · exact .inr ⟨old, new, hl, hn, by simp [hackyFix, hr, settledModPolicy, hf]⟩
  · refine ⟨rfl, by simp [settledModPolicy, hf], ?_, ?_, ?_⟩
    · intro key
      simpa using hg key
    · intro key
      simpa [settledModPolicy, hf] using hval key
    · intro key
      simpa [settledModPolicy, hf] using hpol key

theorem rebuildGroup_spec {result : ConfigGroup}
    (hr : rebuildGroup cm recurseGroup path = .ok result) :
    ∃ cg g, cm.get (groupPrefix ++ path) = some cg ∧ cg.item = .configGroup g ∧
      Rebuilds cm recurseGroup path g result := by
  unfold rebuildGroup at hr
  dsimp only at hr
  cases hg : cm.get (groupPrefix ++ path) with
  | none =>
    rw [hg] at hr
    cases hr
  | some cg =>
    rw [hg] at hr
    cases hit : cg.item with
    | configGroup g =>
      simp only [hit] at hr
      obtain ⟨groups, hgr, hrs⟩ := of_bind hr
      obtain ⟨values, hvl, hrs⟩ := of_bind hrs
      obtain ⟨policies, hpl, hrs⟩ := of_bind hrs
      refine ⟨cg, g, rfl, hit, ?_⟩
      have hs : finishGroup cm (ConfigGroup.literal
          g.version groups values policies g.modPolicy) =
            result := by
        unfold finishGroup
        split_ifs at hrs ⊢ with hfix <;> exact Except.ok.inj hrs
      rw [← hs]
      exact rebuilds_finishGroup hgr hvl hpl
    | configValue | configPolicy =>
      simp only [hit] at hr
      cases hr

theorem exists_rebuildGroup {cg : Comparable} (hg : cm.get (groupPrefix ++ path) = some cg)
    (hit : cg.item = .configGroup g)
    (hgr : ∀ key old, g.groups.get key = some old →
      ∃ new, recurseGroup (path ++ pathSeparator ++ key) = .ok new)
    (hvl : ∀ key old, g.values.get key = some old → ∃ new, lookupValue cm path key = .ok new)
    (hpl : ∀ key old, g.policies.get key = some old → ∃ new, lookupPolicy cm path key = .ok new) :
    ∃ result, rebuildGroup cm recurseGroup path = .ok result ∧
      Rebuilds cm recurseGroup path g result := by
  obtain ⟨_, hgr⟩ := exists_traverse hgr
  obtain ⟨_, hvl⟩ := exists_traverse hvl
  obtain ⟨_, hpl⟩ := exists_traverse hpl
  refine ⟨_, ?_, rebuilds_finishGroup hgr hvl hpl⟩
  unfold rebuildGroup finishGroup
  simp only [hg, hit, hgr, hvl, hpl]
  split_ifs <;> rfl

end OneGroup

/-! ## Elements -/

variable {path key : GoString}

theorem lookupValue_eq_ok_iff {v : ConfigValue} :
    lookupValue cm path key = .ok v ↔
      ∃ cg, cm.get (valuePrefix ++ path ++ pathSeparator ++ key) =
        some cg ∧ cg.item = .configValue v := by
  unfold lookupValue
  dsimp only
  cases cm.get (valuePrefix ++ path ++ pathSeparator ++ key) with
  | none => simp
  | some cg => cases hit : cg.item <;> simp [hit]

theorem lookupPolicy_eq_ok_iff {policy : ConfigPolicy} :
    lookupPolicy cm path key = .ok policy ↔
      ∃ cg, cm.get (policyPrefix ++ path ++ pathSeparator ++ key) =
        some cg ∧ cg.item = .configPolicy policy := by
  unfold lookupPolicy
  dsimp only
  cases cm.get (policyPrefix ++ path ++ pathSeparator ++ key) with
  | none => simp
  | some cg => cases hit : cg.item <;> simp [hit]

def AllModPolicies (configMap : ConfigMap) : Prop :=
  ∀ key cg, configMap.get key = some cg → cg.item.modPolicy ≠ []

variable (path : List GoString)

theorem joinedPath_concat (name : GoString) :
    joinedPath (path ++ [name]) = joinedPath path ++ pathSeparator ++ name := by
  rw [joinedPath_append, append_assoc]
  simp [joinedPath]

def ConfigPath.keyBelow (position : ConfigPath) : GoString :=
  position.kind ++ joinedPath (path ++ position.names)

theorem keyBelow_within (name : GoString) (pos : ConfigPath) :
    (pos.within name).keyBelow path = pos.keyBelow (path ++ [name]) := by
  cases pos <;>
    simp [ConfigPath.keyBelow, ConfigPath.within, ConfigPath.kind, ConfigPath.names]

theorem keyBelow_group : ConfigPath.keyBelow path (.group []) = groupPrefix ++ joinedPath path := by
  simp [ConfigPath.keyBelow, ConfigPath.kind, ConfigPath.names]

theorem keyBelow_value (name : GoString) : ConfigPath.keyBelow path (.value [] name) =
    valuePrefix ++ joinedPath path ++ pathSeparator ++ name := by
  simp [ConfigPath.keyBelow, ConfigPath.kind, ConfigPath.names, joinedPath_concat]

theorem keyBelow_policy (name : GoString) : ConfigPath.keyBelow path (.policy [] name) =
    policyPrefix ++ joinedPath path ++ pathSeparator ++ name := by
  simp [ConfigPath.keyBelow, ConfigPath.kind, ConfigPath.names, joinedPath_concat]

section Elements

variable {configMap cm : ConfigMap} {path : List GoString} {g result : ConfigGroup}

variable {recurseGroup : GoString → Outcome ConfigGroup}

theorem Rebuilds.keys_eq {text : GoString} (hrb : Rebuilds cm recurseGroup text g result) :
    result.groups.keys = g.groups.keys ∧ result.values.keys = g.values.keys ∧
      result.policies.keys = g.policies.keys := by
  simp only [keys_eq_keys_iff]
  refine ⟨?_, ?_, ?_⟩
  · intro key
    rcases hrb.groups key with ⟨hl, hn⟩ | ⟨_, _, hl, -, hn⟩ <;>
      simp [hl, hn]
  · intro key
    rcases hrb.values key with ⟨hl, hn⟩ | ⟨_, _, hl, -, hn⟩ <;>
      simp [hl, hn]
  · intro key
    rcases hrb.policies key with ⟨hl, hn⟩ | ⟨_, _, hl, -, hn⟩ <;>
      simp [hl, hn]

/-- An element with the `mod_policy` that it gets when it is rebuilt. -/
def settled (configMap : ConfigMap) (fields : OwnFields) : OwnFields :=
  fields.withModPolicy (settledModPolicy configMap fields.modPolicy)

theorem settled_eq_iff {fs : OwnFields} :
    settled cm fs = fs ↔ cm.get hackyFixOrdererCapabilities = none ∨ fs.modPolicy ≠ [] := by
  rw [settled, OwnFields.withModPolicy_eq_iff]
  cases hfx : cm.get hackyFixOrdererCapabilities with
  | none => simp [settledModPolicy, hfx]
  | some =>
    by_cases hn : fs.modPolicy = []
    · simp [settledModPolicy, hfx, fixModPolicy, hn, show hackyFixNewModPolicy ≠ [] by decide]
    · simp [settledModPolicy, hfx, fixModPolicy, hn]

theorem Rebuilds.own_eq {text : GoString} (hrb : Rebuilds cm recurseGroup text g result) :
    (configGroup result).own = settled cm (configGroup g).own := by
  obtain ⟨hgr, hvl, hpl⟩ := hrb.keys_eq
  rw [own, hrb.version, hrb.modPolicy, hgr, hvl, hpl]
  rfl

variable {pos : ConfigPath}

theorem element_recurseConfigMap_settled (hr : recurseConfigMap cm (joinedPath path) = .ok result)
    {it : ConfigItem} (hel : result.element pos = some it) :
    ∃ cg, cm.get (pos.keyBelow path) = some cg ∧ it.own = settled cm cg.item.own := by
  induction pos using induction_within generalizing path result with
  | hroot =>
    rw [recurseConfigMap_eq] at hr
    obtain ⟨cg, _, hg, hit, hrb⟩ := rebuildGroup_spec hr
    rw [element_root] at hel
    cases hel
    refine ⟨cg, ?_, ?_⟩
    · rw [keyBelow_group]
      exact hg
    · rw [hit, hrb.own_eq]
  | hval name =>
    rw [recurseConfigMap_eq] at hr
    obtain ⟨-, _, -, -, hrb⟩ := rebuildGroup_spec hr
    rw [element_value_nil, map_eq_some_iff] at hel
    obtain ⟨_, hval, rfl⟩ := hel
    rcases hrb.values name with ⟨-, hno⟩ | ⟨_, _, -, hn, hs⟩
    · rw [hno] at hval
      cases hval
    rw [hs] at hval
    cases hval
    obtain ⟨cg, hg, hit⟩ := lookupValue_eq_ok_iff.mp hn
    refine ⟨cg, ?_, ?_⟩
    · rw [keyBelow_value]
      exact hg
    · rw [hit]
      rfl
  | hpol name =>
    rw [recurseConfigMap_eq] at hr
    obtain ⟨-, _, -, -, hrb⟩ := rebuildGroup_spec hr
    rw [element_policy_nil, map_eq_some_iff] at hel
    obtain ⟨_, hpol, rfl⟩ := hel
    rcases hrb.policies name with ⟨-, hno⟩ | ⟨_, new, -, hn, hs⟩
    · rw [hno] at hpol
      cases hpol
    rw [hs] at hpol
    cases hpol
    obtain ⟨cg, hg, hit⟩ := lookupPolicy_eq_ok_iff.mp hn
    refine ⟨cg, ?_, ?_⟩
    · rw [keyBelow_policy]
      exact hg
    · rw [hit]
      rfl
  | hwithin name _ ih =>
    rw [recurseConfigMap_eq] at hr
    obtain ⟨-, _, -, -, hrb⟩ := rebuildGroup_spec hr
    rw [element_within, bind_eq_some_iff] at hel
    obtain ⟨_, hin, hel⟩ := hel
    rw [keyBelow_within]
    rcases hrb.groups name with ⟨-, hno⟩ | ⟨_, _, -, hn, hs⟩
    · rw [hno] at hin
      cases hin
    · rw [hs] at hin
      cases hin
      rw [← joinedPath_concat] at hn
      exact ih hn hel

theorem element_recurseConfigMap (hs : AllModPolicies cm)
    (hr : recurseConfigMap cm (joinedPath path) = .ok result) {it : ConfigItem}
    (hel : result.element pos = some it) :
    ∃ cg, cm.get (pos.keyBelow path) = some cg ∧ cg.item.own = it.own := by
  obtain ⟨cg, hg, hw⟩ := element_recurseConfigMap_settled hr hel
  have hmd : cg.item.own.modPolicy ≠ [] := by
    rw [modPolicy_own]
    exact hs _ cg hg
  rw [settled_eq_iff.mpr (.inr hmd)] at hw
  exact ⟨cg, hg, hw.symm⟩

/-! ## Maps that hold a tree -/

def HoldsShape (configMap : ConfigMap) (path : List GoString) (target : ConfigGroup) : Prop :=
  ∀ position item, target.element position = some item →
    ∃ cg, configMap.get (position.keyBelow path) = some cg ∧ cg.item.SameShape item

variable {name : GoString}

theorem HoldsShape.inner {target inner : ConfigGroup} (hhl : HoldsShape cm path target)
    (hin : target.groups.get name = some inner) : HoldsShape cm (path ++ [name]) inner := by
  intro pos item hel
  have hou : target.element (pos.within name) = some item := by
    rw [element_within, hin]
    exact hel
  obtain ⟨cg, hg, hsh⟩ := hhl _ item hou
  rw [keyBelow_within] at hg
  exact ⟨cg, hg, hsh⟩

variable {target : ConfigGroup}

theorem HoldsShape.root (hhl : HoldsShape cm path target) :
    ∃ cg g, cm.get (groupPrefix ++ joinedPath path) = some cg ∧ cg.item = .configGroup g ∧
      g.groups.keys = target.groups.keys ∧
      g.values.keys = target.values.keys ∧
      g.policies.keys = target.policies.keys := by
  obtain ⟨cg, hg, hsh⟩ := hhl (.group []) _ (element_root target)
  rw [keyBelow_group] at hg
  generalize hit : cg.item = f at hsh
  cases f with
  | configGroup g => exact ⟨cg, g, hg, hit, hsh⟩
  | configValue | configPolicy => cases hsh

theorem HoldsShape.value {v : ConfigValue} (hhl : HoldsShape cm path target)
    (hval : target.values.get name = some v) :
    ∃ found, lookupValue cm (joinedPath path) name = .ok found := by
  obtain ⟨cg, hg, hsh⟩ := hhl (.value [] name) (.configValue v) (by simp [hval])
  rw [keyBelow_value] at hg
  generalize hit : cg.item = found at hsh
  cases found with
  | configGroup => cases hsh
  | configValue found => exact ⟨found, lookupValue_eq_ok_iff.mpr ⟨cg, hg, hit⟩⟩
  | configPolicy => cases hsh

theorem HoldsShape.policy {policy : ConfigPolicy} (hhl : HoldsShape cm path target)
    (hpol : target.policies.get name = some policy) :
    ∃ found, lookupPolicy cm (joinedPath path) name = .ok found := by
  obtain ⟨cg, hg, hsh⟩ := hhl (.policy [] name) (.configPolicy policy) (by simp [hpol])
  rw [keyBelow_policy] at hg
  generalize hit : cg.item = found at hsh
  cases found with
  | configGroup | configValue => cases hsh
  | configPolicy found => exact ⟨found, lookupPolicy_eq_ok_iff.mpr ⟨cg, hg, hit⟩⟩

section

variable {V W : Type} {first : SortedMap GoString V} {second : SortedMap GoString W}
  (hkeys : first.keys = second.keys)

include hkeys

theorem exists_get_of_keys_eq {key : GoString} {v : V} (hg : first.get key = some v) :
    ∃ other, second.get key = some other := by
  rw [← mem_keys_iff, ← hkeys, mem_keys_iff]
  exact ⟨v, hg⟩

theorem isSome_get_of_keys_eq
    (key : GoString) : (first.get key).isSome = (second.get key).isSome := by
  rw [Bool.eq_iff_iff, isSome_iff_exists, isSome_iff_exists, ← mem_keys_iff, ← mem_keys_iff, hkeys]

end

theorem exists_recurseConfigMap_of_shape (hhl : HoldsShape cm path target) :
    ∃ result, recurseConfigMap cm (joinedPath path) = .ok result ∧
      ∀ pos, (result.element pos).isSome = (target.element pos).isSome := by
  induction target using ConfigGroup.induction generalizing path with
  | hstep _ ih =>
    obtain ⟨_, g, hg, hit, hgu, hva, hpo⟩ := hhl.root
    have hgr : ∀ key old, g.groups.get key = some old →
        ∃ new, recurseConfigMap cm (joinedPath path ++ pathSeparator ++ key) = .ok new := by
      intro key _ hl
      obtain ⟨inn, hin⟩ := exists_get_of_keys_eq hgu hl
      obtain ⟨new, hn, -⟩ := ih key inn hin (hhl.inner hin)
      rw [joinedPath_concat] at hn
      exact ⟨new, hn⟩
    have hvl : ∀ key old, g.values.get key = some old →
        ∃ new, lookupValue cm (joinedPath path) key = .ok new := by
      intro _ _ hl
      obtain ⟨_, hval⟩ := exists_get_of_keys_eq hva hl
      exact hhl.value hval
    have hpl : ∀ key old, g.policies.get key = some old →
        ∃ new, lookupPolicy cm (joinedPath path) key = .ok new := by
      intro _ _ hl
      obtain ⟨_, hpol⟩ := exists_get_of_keys_eq hpo hl
      exact hhl.policy hpol
    obtain ⟨result, hr, hrb⟩ := exists_rebuildGroup hg hit hgr hvl hpl
    obtain ⟨_, hv, hp⟩ := hrb.keys_eq
    refine ⟨result, (recurseConfigMap_eq cm _).trans hr, ?_⟩
    intro pos
    induction pos using induction_within with
    | hroot => simp
    | hval => simp [isSome_get_of_keys_eq (hv.trans hva)]
    | hpol => simp [isSome_get_of_keys_eq (hp.trans hpo)]
    | hwithin name pos =>
      rw [element_within, element_within]
      rcases hrb.groups name with ⟨hl, hno⟩ | ⟨old, new, hl, hn, hfn⟩
      · have hb := isSome_get_of_keys_eq hgu name
        rw [hl, isSome_none, eq_comm, isSome_eq_false_iff, isNone_iff_eq_none] at hb
        rw [hno, hb]
      obtain ⟨inn, hin⟩ := exists_get_of_keys_eq hgu hl
      obtain ⟨_, ho, hsm⟩ := ih name inn hin (hhl.inner hin)
      rw [joinedPath_concat, hn] at ho
      cases ho
      rw [hfn, hin]
      exact hsm pos

/-- Up to versions, the map has every element of the tree. -/
def Holds (configMap : ConfigMap) (path : List GoString) (target : ConfigGroup) : Prop :=
  ∀ position item, target.element position = some item →
    ∃ cg, configMap.get (position.keyBelow path) = some cg ∧ cg.item.content = item.content

theorem exists_recurseConfigMap (hhl : Holds cm path target) :
    ∃ result, recurseConfigMap cm (joinedPath path) = .ok result ∧
      ∀ pos, (result.element pos).isSome = (target.element pos).isSome := by
  apply exists_recurseConfigMap_of_shape
  intro pos it hel
  obtain ⟨cg, hg, hcn⟩ := hhl pos it hel
  exact ⟨cg, hg, sameShape_of_content_eq hcn⟩

theorem content_recurseConfigMap (hs : AllModPolicies cm) (hhl : Holds cm path target)
    (hr : recurseConfigMap cm (joinedPath path) = .ok result) {it other : ConfigItem}
    (hit : result.element pos = some it) (ho : target.element pos = some other) :
    it.content = other.content := by
  obtain ⟨_, hg, hw⟩ := element_recurseConfigMap hs hr hit
  obtain ⟨_, hfn, hcn⟩ := hhl pos other ho
  rw [hg] at hfn
  cases hfn
  rw [← hcn, content, content, hw]

end Elements

/-! ## The round trip -/

theorem ext_element {first second : ConfigGroup}
    (hw : ∀ pos, (first.element pos).map own = (second.element pos).map own) : first = second := by
  induction first using ConfigGroup.induction generalizing second with
  | hstep first ih =>
    have hroot := hw (.group [])
    simp only [element_root, map_some, own, some.injEq, OwnFields.group.injEq] at hroot
    obtain ⟨hv, hpol, hkeys, -, -⟩ := hroot
    have hvl : first.values = second.values := by
      apply SortedMap.ext_get
      intro name
      have hval := hw (.value [] name)
      rw [element_value_nil, element_value_nil, Option.map_map, Option.map_map] at hval
      exact map_injective (fun _ _ heq => OwnFields.value.inj heq) hval
    have hpl : first.policies = second.policies := by
      apply SortedMap.ext_get
      intro name
      have hval := hw (.policy [] name)
      rw [element_policy_nil, element_policy_nil, Option.map_map, Option.map_map] at hval
      exact map_injective (fun _ _ heq => OwnFields.policy.inj heq) hval
    have hgr : first.groups = second.groups := by
      apply SortedMap.ext_get
      intro name
      have hsm := isSome_get_of_keys_eq hkeys name
      cases hf : first.groups.get name with
      | none =>
        rw [hf] at hsm
        exact (by simpa using hsm : second.groups.get name = none).symm
      | some inn =>
        rw [hf, eq_comm, isSome_some, isSome_iff_exists] at hsm
        obtain ⟨other, hs⟩ := hsm
        rw [hs, @ih name inn hf other]
        intro pos
        have hwithin := hw (pos.within name)
        rwa [element_within, element_within, hf, hs] at hwithin
    apply LabelledTree.ext_children _ hgr
    cases hf : first.label
    cases hs : second.label
    simp_all [ConfigGroup.version, ConfigGroup.values, ConfigGroup.policies, ConfigGroup.modPolicy]

variable {group : ConfigGroup} {root : GoString}

theorem own_roundTrip (hm : mapConfig (some group) root = .ok cm) :
    ∃ result, configMapToConfig cm root = .ok result ∧
      ∀ pos, (result.element pos).map own = (group.element pos).map (settled cm ∘ own) := by
  obtain ⟨-, -, hg⟩ := mapConfig_eq_ok_iff.mp hm
  have hfn : ∀ pos it, group.element pos = some it →
      cm.get (pos.keyBelow [root]) = some (comparableAt [root] pos it) := by
    intro pos it hel
    exact (hg _ _).mpr ⟨pos, it, hel, rfl, rfl⟩
  have hsh : HoldsShape cm [root] group := by
    intro pos it hel
    refine ⟨_, hfn pos it hel, ?_⟩
    rw [comparableAt_item]
    exact sameShape_of_content_eq rfl
  obtain ⟨result, hr, hsm⟩ := exists_recurseConfigMap_of_shape hsh
  rw [configMapToConfig, ← joinedPath_singleton]
  refine ⟨result, hr, ?_⟩
  intro pos
  have hbo := hsm pos
  cases hel : group.element pos with
  | none => simpa [hel] using hbo
  | some it =>
    rw [hel, isSome_some, isSome_iff_exists] at hbo
    obtain ⟨other, ho⟩ := hbo
    obtain ⟨cg, hcg, hw⟩ := element_recurseConfigMap_settled hr ho
    rw [hfn pos it hel] at hcg
    cases hcg
    simpa [ho] using hw

/-- A tree with valid names comes back from its flat map exactly if no missing `mod_policy` is
filled in, and distinct elements have distinct paths. -/
theorem roundTrip_iff (hroot : validateConfigID root = .ok ()) (hnames : ValidNames group) :
    ∃ cm, mapConfig (some group) root = .ok cm ∧
      (configMapToConfig cm root = .ok group ↔ cm.get hackyFixOrdererCapabilities = none ∨
        ∀ pos item, group.element pos = some item → item.modPolicy ≠ []) ∧
      ∀ pos item other found, group.element pos = some item → group.element other = some found →
        (comparableAt [root] pos item).fqPath = (comparableAt [root] other found).fqPath →
          pos = other := by
  obtain ⟨cm, hmap⟩ := exists_mapConfig hroot hnames
  obtain ⟨result, hreb, hown⟩ := own_roundTrip hmap
  refine ⟨cm, hmap, ?_, ?_⟩
  · have hsame : result = group ↔ ∀ pos item, group.element pos = some item →
        settled cm item.own = item.own := by
      constructor
      · rintro rfl pos item helem
        simpa [helem, eq_comm] using hown pos
      · intro hsettled
        apply ext_element
        intro pos
        rw [hown]
        cases helem : group.element pos with
        | none => rfl
        | some item => simpa using hsettled pos item helem
    rw [hreb, Except.ok.injEq, hsame]
    simp only [settled_eq_iff, modPolicy_own]
    by_cases hfix : cm.get hackyFixOrdererCapabilities = none <;> simp [hfix]
  · intro _ _ _ _ helem hoth heq
    exact position_injective hroot hnames helem hoth heq

/-- A channel of an old version: the group `Channel` has no `mod_policy`. -/
def oldChannel : ConfigGroup :=
  ConfigGroup.literal 0 (SortedMap.empty.insert (ascii "Orderer") (ConfigGroup.literal 0
    SortedMap.empty (SortedMap.empty.insert (ascii "Capabilities") ⟨0, [], ascii "Admins"⟩)
    SortedMap.empty (ascii "Admins"))) SortedMap.empty SortedMap.empty []

/-- The flat map has the entry at `Capabilities`, so the missing policy of this tree counts. -/
theorem roundTrip_iff_oldChannel :
    validateConfigID (ascii "Channel") = .ok () ∧ ValidNames oldChannel ∧
      ∃ cm, mapConfig (some oldChannel) (ascii "Channel") = .ok cm ∧
        (configMapToConfig cm (ascii "Channel") = .ok oldChannel ↔
          cm.get hackyFixOrdererCapabilities = none ∨
            ∀ pos item, oldChannel.element pos = some item → item.modPolicy ≠ []) ∧
        ∀ pos item other found, oldChannel.element pos = some item →
          oldChannel.element other = some found →
          (comparableAt [ascii "Channel"] pos item).fqPath =
            (comparableAt [ascii "Channel"] other found).fqPath → pos = other := by
  have hmapped : (mapConfig (some oldChannel) (ascii "Channel")).toOption.isSome = true := by
    decide +kernel
  cases hmap : mapConfig (some oldChannel) (ascii "Channel") with
  | error =>
    rw [hmap] at hmapped
    cases hmapped
  | ok cm =>
    obtain ⟨hroot, hnames, -⟩ := mapConfig_eq_ok_iff.mp hmap
    exact ⟨hroot, hnames, hmap ▸ roundTrip_iff hroot hnames⟩

theorem roundTrip_oldChannel :
    oldChannel.modPolicy = [] ∧ ((mapConfig (some oldChannel) (ascii "Channel")).bind fun cm =>
      (configMapToConfig cm (ascii "Channel")).map ConfigGroup.modPolicy).toOption =
        some (ascii "Admins") := by
  decide +kernel

end FabricSequencer
