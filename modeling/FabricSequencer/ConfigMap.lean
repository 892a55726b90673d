import FabricSequencer.ConfigTree

/-!
# Configuration trees as flat maps

`mapConfig` turns a configuration tree into a map from the full path of every
element to the element.  `configMapToConfig` builds a tree again from such a
map: it starts at the root and looks up each child that a group names.
-/

namespace FabricSequencer

open List ConfigGroup SortedMap

structure Comparable where
  item : ConfigItem
  key : GoString
  path : List GoString

abbrev ConfigMap := SortedMap GoString Comparable

def groupPrefix : GoString := ascii "[Group]  "
def valuePrefix : GoString := ascii "[Value]  "
def policyPrefix : GoString := ascii "[Policy] "

def ConfigItem.kind : ConfigItem → GoString
  | .configGroup _ => groupPrefix
  | .configValue _ => valuePrefix
  | .configPolicy _ => policyPrefix

def Comparable.fqPath (cg : Comparable) : GoString :=
  if cg.path.length = 0 then cg.item.kind ++ (pathSeparator ++ cg.key)
  else
    cg.item.kind ++ (pathSeparator ++ pathSeparator.intercalate cg.path ++ pathSeparator ++ cg.key)

def addToMap (result : ConfigMap) (cg : Comparable) : Outcome ConfigMap := do
  (validateConfigID cg.key).withMessage ("illegal characters in key: " ++ printed cg.item.kind)
  pure (result.insert cg.fqPath cg)

variable (path : List GoString)

def groupComparable (group : ConfigGroup) : Comparable where
  item := .configGroup group
  key := path.getLast?.getD []
  path := path.dropLast

def valueComparable (entry : GoString × ConfigValue) : Comparable where
  item := .configValue entry.2
  key := entry.1
  path := path

def policyComparable (entry : GoString × ConfigPolicy) : Comparable where
  item := .configPolicy entry.2
  key := entry.1
  path := path

def recurseConfig : ConfigGroup → List GoString → ConfigMap → Outcome ConfigMap :=
  LabelledTree.recurse fun group recurseGroups path result => do
    let result ← addToMap result (groupComparable path group)
    let result ← recurseGroups.entries.foldlM
      (fun result entry => entry.2 (path ++ [entry.1]) result) result
    let result ← (ConfigGroup.values group).entries.foldlM
      (fun result entry => addToMap result (valueComparable path entry)) result
    (ConfigGroup.policies group).entries.foldlM
      (fun result entry => addToMap result (policyComparable path entry)) result

def mapConfig (channelGroup : Option ConfigGroup) (rootGroupKey : GoString) : Outcome ConfigMap :=
  match channelGroup with
  | none => .ok SortedMap.empty
  | some group => recurseConfig group [rootGroupKey] SortedMap.empty

def hackyFixOrdererCapabilities : GoString := ascii "[Value]  /Channel/Orderer/Capabilities"

def hackyFixNewModPolicy : GoString := ascii "Admins"

def fixModPolicy (modPolicy : GoString) : GoString :=
  if modPolicy = [] then hackyFixNewModPolicy else modPolicy

/-- The `mod_policy` fields that an old channel has left unset. -/
def hackyFix (group : ConfigGroup) : ConfigGroup :=
  ConfigGroup.literal group.version group.groups (group.values.map fun value =>
      { value with modPolicy := fixModPolicy value.modPolicy })
    (group.policies.map fun policy =>
      { policy with modPolicy := fixModPolicy policy.modPolicy })
    (fixModPolicy group.modPolicy)

variable (configMap cm : ConfigMap)

def lookupValue (path key : GoString) : Outcome ConfigValue :=
  let valuePath := valuePrefix ++ path ++ pathSeparator ++ key
  match configMap.get valuePath with
  | none => .error (.error ("missing value at path: " ++ printed valuePath))
  | some found =>
    match found.item with
    | .configValue value => .ok value
    | _ => .error (.error ("ConfigValue not found at value path: " ++ printed valuePath))

def lookupPolicy (path key : GoString) : Outcome ConfigPolicy :=
  let policyPath := policyPrefix ++ path ++ pathSeparator ++ key
  match configMap.get policyPath with
  | none => .error (.error ("missing policy at path: " ++ printed policyPath))
  | some found =>
    match found.item with
    | .configPolicy policy => .ok policy
    | _ => .error (.error ("ConfigPolicy not found at policy path: " ++ printed policyPath))

/-- One call of `recurseConfigMap`, given what the calls for the groups
return. -/
def rebuildGroup (recurseGroup : GoString → Outcome ConfigGroup) (path : GoString) :
    Outcome ConfigGroup :=
  let groupPath := groupPrefix ++ path
  match configMap.get groupPath with
  | none => .error (.error ("missing group at path: " ++ printed groupPath))
  | some found =>
    match found.item with
    | .configGroup group => do
        let groups ← group.groups.traverse fun key _ =>
          recurseGroup (path ++ pathSeparator ++ key)
        let values ← group.values.traverse fun key _ =>
          lookupValue configMap path key
        let policies ← group.policies.traverse fun key _ =>
          lookupPolicy configMap path key
        let newGroup := ConfigGroup.literal group.version groups values policies group.modPolicy
        if (configMap.get hackyFixOrdererCapabilities).isSome then
          pure (hackyFix newGroup)
        else pure newGroup
    | _ => .error (.error ("ConfigGroup not found at group path: " ++ printed groupPath))

def recurseWithin (configMap : ConfigMap) : ℕ → GoString → Outcome ConfigGroup
  | 0, _ => .error (.panic "stack overflow")
  | depth + 1, path => rebuildGroup configMap (recurseWithin configMap depth) path

def longestKey : ℕ := (configMap.keys.map List.length).foldr max 0

def recurseConfigMap (path : GoString) : Outcome ConfigGroup :=
  recurseWithin configMap (longestKey configMap + 2) path

def configMapToConfig (rootGroupKey : GoString) : Outcome ConfigGroup :=
  recurseConfigMap configMap (pathSeparator ++ rootGroupKey)

def joinedPath (names : List GoString) : GoString := names.flatMap fun name => pathSeparator ++ name

theorem joinedPath_singleton (name : GoString) : joinedPath [name] = pathSeparator ++ name := by
  simp [joinedPath]

theorem joinedPath_append (first second : List GoString) :
    joinedPath (first ++ second) = joinedPath first ++ joinedPath second :=
  flatMap_append

theorem joinedPath_eq_intercalate {names : List GoString} (hnm : names ≠ []) :
    joinedPath names = pathSeparator ++ pathSeparator.intercalate names := by
  induction names with
  | nil => exact absurd rfl hnm
  | cons nm names ih =>
    cases names with
    | nil => simp [joinedPath]
    | cons second tl =>
      have htl := ih (cons_ne_nil second tl)
      rw [joinedPath, flatMap_cons, intercalate_cons_cons,
        ← append_assoc, ← append_assoc, append_assoc (pathSeparator ++ nm)]
      congr 1

theorem joinedPath_injective {first second : List GoString} (hf : ∀ nm ∈ first, slash ∉ nm)
    (hs : ∀ nm ∈ second, slash ∉ nm) (hfr : first ≠ []) (hsc : second ≠ [])
    (hj : joinedPath first = joinedPath second) : first = second := by
  rw [joinedPath_eq_intercalate hfr, joinedPath_eq_intercalate hsc] at hj
  have hin := append_cancel_left hj
  rw [← splitOn_intercalate slash hf hfr, ← splitOn_intercalate slash hs hsc]
  exact congrArg (List.splitOn slash) hin

namespace ConfigPath

def kind : ConfigPath → GoString
  | .group _ => groupPrefix
  | .value _ _ => valuePrefix
  | .policy _ _ => policyPrefix

def fqPath (rootGroupKey : GoString) (path : ConfigPath) : GoString :=
  path.kind ++ joinedPath (rootGroupKey :: path.names)

theorem length_kind (path : ConfigPath) : path.kind.length = 9 := by
  cases path with
  | group => exact (by decide : groupPrefix.length = 9)
  | value => exact (by decide : valuePrefix.length = 9)
  | policy => exact (by decide : policyPrefix.length = 9)

variable {first second : ConfigPath}

theorem eq_of_kind_names (hkn : first.kind = second.kind) (hnm : first.names = second.names) :
    first = second := by
  have hg : groupPrefix ≠ valuePrefix := by decide
  have hgr : groupPrefix ≠ policyPrefix := by decide
  have hvl : valuePrefix ≠ policyPrefix := by decide
  cases first <;> cases second <;> simp_all [kind, names, eq_comm]

theorem fqPath_injective {rootGroupKey : GoString}
    (hf : ∀ nm ∈ rootGroupKey :: first.names, slash ∉ nm)
    (hs : ∀ nm ∈ rootGroupKey :: second.names, slash ∉ nm)
    (heq : first.fqPath rootGroupKey = second.fqPath rootGroupKey) :
    first = second := by
  obtain ⟨hkn, hj⟩ := append_inj heq ((length_kind first).trans (length_kind second).symm)
  have hnm := joinedPath_injective hf hs (cons_ne_nil _ _) (cons_ne_nil _ _) hj
  exact eq_of_kind_names hkn (List.cons.inj hnm).2

end ConfigPath

def comparableAt (position : ConfigPath) (item : ConfigItem) : Comparable :=
  match position with
  | .group inner =>
    { item := item, key := (path ++ inner).getLast?.getD []
      path := (path ++ inner).dropLast }
  | .value inner name => { item := item, key := name, path := path ++ inner }
  | .policy inner name => { item := item, key := name, path := path ++ inner }

@[simp] theorem comparableAt_item (pos : ConfigPath) (item : ConfigItem) :
    (comparableAt path pos item).item = item := by
  cases pos <;> rfl

open ConfigPath

theorem comparableAt_within (nm : GoString) (pos : ConfigPath) (item : ConfigItem) :
    comparableAt (path ++ [nm]) pos item = comparableAt path (pos.within nm) item := by
  cases pos <;> simp [comparableAt, within]

theorem Comparable.fqPath_eq (cg : Comparable) :
    cg.fqPath = cg.item.kind ++ joinedPath (cg.path ++ [cg.key]) := by
  unfold Comparable.fqPath
  rw [joinedPath_append, joinedPath_singleton]
  split_ifs with hpath
  · rw [length_eq_zero_iff.mp hpath]
    rfl
  · have hne : cg.path ≠ [] := by
      intro hn
      exact hpath (by rw [hn]; rfl)
    simp only [joinedPath_eq_intercalate hne, append_assoc]

variable {group : ConfigGroup} {pos : ConfigPath} {item : ConfigItem}

theorem kind_of_element (hel : group.element pos = some item) : item.kind = pos.kind := by
  cases pos <;> simp only [element, Option.map_eq_some_iff, Option.bind_eq_some_iff] at hel
  · obtain ⟨_, -, rfl⟩ := hel
    rfl
  · obtain ⟨_, -, _, -, rfl⟩ := hel
    rfl
  · obtain ⟨_, -, _, -, rfl⟩ := hel
    rfl

theorem fqPath_comparableAt (rootGroupKey : GoString) (hel : group.element pos = some item) :
    (comparableAt [rootGroupKey] pos item).fqPath = pos.fqPath rootGroupKey := by
  have hkn := kind_of_element hel
  rw [Comparable.fqPath_eq, fqPath, ← hkn]
  cases pos with
  | group inn =>
    have hne : [rootGroupKey] ++ inn ≠ [] := by simp
    have hla := dropLast_append_getLast hne
    change item.kind ++ joinedPath (([rootGroupKey] ++ inn).dropLast ++
      [([rootGroupKey] ++ inn).getLast?.getD []]) = _
    rw [List.getLast?_eq_some_getLast hne, Option.getD_some, hla]
    rfl
  | value | policy => rfl

/-! ## What is in the map of a tree -/

def comparables : ConfigGroup → List GoString → List Comparable :=
  LabelledTree.recurse fun group inner path =>
    groupComparable path group ::
      (inner.entries.flatMap (fun entry => entry.2 (path ++ [entry.1])) ++
        (ConfigGroup.values group).entries.map (valueComparable path) ++
        (ConfigGroup.policies group).entries.map (policyComparable path))

section

variable (group : ConfigGroup)

section

variable (path : List GoString)

theorem comparables_eq :
    comparables group path =
      groupComparable path group ::
        (group.groups.entries.flatMap (fun e => comparables e.2 (path ++ [e.1])) ++
          group.values.entries.map (valueComparable path) ++
          group.policies.entries.map (policyComparable path)) := by
  unfold comparables
  rw [LabelledTree.recurse_eq]
  simp only [SortedMap.map, flatMap_map]
  rfl

theorem recurseConfig_eq (result : ConfigMap) :
    recurseConfig group path result = (comparables group path).foldlM addToMap result := by
  induction group using induction generalizing path result with
  | hstep group ih =>
    have hgr : ∀ (es : List (GoString × ConfigGroup)) result, (∀ e ∈ es, e ∈ group.groups.entries) →
        es.foldlM (fun result e =>
              recurseConfig e.2 (path ++ [e.1]) result) result =
          (es.flatMap fun e =>
            comparables e.2 (path ++ [e.1])).foldlM addToMap result := by
      intro es
      induction es with
      | nil =>
        intro _ _
        rfl
      | cons e _ ihEntries =>
        intro _ hm
        rw [forall_mem_cons] at hm
        rw [foldlM_cons, flatMap_cons, foldlM_append, ih e.1 e.2 (get_eq_some_iff.mpr hm.1)]
        congr 1
        funext next
        exact ihEntries next hm.2
    rw [comparables_eq, foldlM_cons]
    simp only [foldlM_append, bind_assoc, ← hgr group.groups.entries _ fun _ hm => hm, foldlM_map]
    unfold recurseConfig
    rw [LabelledTree.recurse_eq]
    simp only [SortedMap.map, foldlM_map]
    rfl

theorem mem_comparables (cg : Comparable) :
    cg ∈ comparables group path ↔
      ∃ pos item, group.element pos = some item ∧ cg = comparableAt path pos item := by
  induction group using induction generalizing path with
  | hstep group ih =>
    have hgr : (∃ e ∈ group.groups.entries, cg ∈ comparables e.2 (path ++ [e.1])) ↔
        ∃ nm pos item,
          group.element (within nm pos) = some item ∧
            cg = comparableAt path (pos.within nm) item := by
      simp only [element_within, Option.bind_eq_some_iff, Prod.exists, ← get_eq_some_iff]
      constructor
      · rintro ⟨nm, inn, hin, hm⟩
        obtain ⟨pos, item, hel, rfl⟩ := (ih nm inn hin (path ++ [nm])).mp hm
        exact ⟨nm, pos, item, ⟨inn, hin, hel⟩, comparableAt_within path nm pos item⟩
      · rintro ⟨nm, pos, item, ⟨inn, hin, hel⟩, rfl⟩
        exact ⟨nm, inn, hin, (ih nm inn hin _).mpr
          ⟨pos, item, hel, (comparableAt_within path nm pos item).symm⟩⟩
    have hvl : (∃ e ∈ group.values.entries, valueComparable path e = cg) ↔
        ∃ nm item, group.element (.value [] nm) = some item ∧
          cg = comparableAt path (.value [] nm) item := by
      simp only [element_value_nil, Option.map_eq_some_iff, Prod.exists, ← get_eq_some_iff]
      constructor
      · rintro ⟨nm, value, hg, rfl⟩
        exact ⟨nm, _, ⟨value, hg, rfl⟩, by simp [comparableAt, valueComparable]⟩
      · rintro ⟨nm, _, ⟨value, hg, rfl⟩, rfl⟩
        exact ⟨nm, value, hg, by simp [comparableAt, valueComparable]⟩
    have hpl : (∃ e ∈ group.policies.entries, policyComparable path e = cg) ↔
        ∃ nm item, group.element (.policy [] nm) = some item ∧
          cg = comparableAt path (.policy [] nm) item := by
      simp only [element_policy_nil, Option.map_eq_some_iff, Prod.exists, ← get_eq_some_iff]
      constructor
      · rintro ⟨nm, policy, hg, rfl⟩
        exact ⟨nm, _, ⟨policy, hg, rfl⟩, by simp [comparableAt, policyComparable]⟩
      · rintro ⟨nm, _, ⟨policy, hg, rfl⟩, rfl⟩
        exact ⟨nm, policy, hg, by simp [comparableAt, policyComparable]⟩
    have hroot : cg = groupComparable path group ↔
        ∃ item, group.element (.group []) = some item ∧
          cg = comparableAt path (.group []) item := by
      simp [comparableAt, groupComparable]
    rw [comparables_eq]
    simp only [mem_cons, mem_append, mem_flatMap, mem_map]
    rw [hroot, hgr, hvl, hpl]
    constructor
    · rintro (⟨item, hel, hcg⟩ | (⟨nm, pos, item, hel, hcg⟩ | ⟨nm, item, hel, hcg⟩) |
        ⟨nm, item, hel, hcg⟩) <;>
        exact ⟨_, item, hel, hcg⟩
    · rintro ⟨pos, item, hel, hcg⟩
      induction pos using induction_within with
      | hroot => exact .inl ⟨item, hel, hcg⟩
      | hval nm => exact .inr (.inl (.inr ⟨nm, item, hel, hcg⟩))
      | hpol nm => exact .inr (.inr ⟨nm, item, hel, hcg⟩)
      | hwithin nm pos =>
        exact .inr (.inl (.inl ⟨nm, pos, item, hel, hcg⟩))

theorem forall_element_iff (property : ConfigItem → Prop) :
    (∀ pos item, group.element pos = some item → property item) ↔
      ∀ cg ∈ comparables group path, property cg.item := by
  simp only [mem_comparables]
  constructor
  · rintro ha _ ⟨pos, item, hel, rfl⟩
    rw [comparableAt_item]
    exact ha pos item hel
  · intro ha pos item hel
    have hit := ha _ ⟨pos, item, hel, rfl⟩
    rw [comparableAt_item] at hit
    exact hit

end

variable {cgs : List Comparable}

theorem foldlM_addToMap_eq_ok_iff {r filled : ConfigMap} :
    cgs.foldlM addToMap r = .ok filled ↔
      (∀ cg ∈ cgs, validateConfigID cg.key = .ok ()) ∧
        cgs.foldl (fun r cg => r.insert cg.fqPath cg) r =
          filled := by
  induction cgs generalizing r with
  | nil =>
    simp only [foldlM_nil, not_mem_nil, foldl_nil]
    constructor
    · intro hpu
      exact ⟨fun _ hm => absurd hm id, Except.ok.inj hpu⟩
    · rintro ⟨-, rfl⟩
      rfl
  | cons cg _ ih =>
    rw [foldlM_cons, Except.bind_eq_ok_iff, forall_mem_cons, foldl_cons]
    constructor
    · rintro ⟨_, ha, hrs⟩
      obtain ⟨_, hok, hpu⟩ := of_bind ha
      cases hpu
      obtain ⟨hky, hfl⟩ := ih.mp hrs
      exact ⟨⟨Outcome.withMessage_eq_ok_iff.mp hok, hky⟩, hfl⟩
    · rintro ⟨⟨hok, hky⟩, hfl⟩
      refine ⟨r.insert cg.fqPath cg, ?_, ih.mpr ⟨hky, hfl⟩⟩
      exact bind_of_ok (Outcome.withMessage_eq_ok_iff.mpr hok) rfl

theorem get_foldl_insert
    (hin : ∀ first ∈ cgs, ∀ second ∈ cgs, first.fqPath = second.fqPath → first = second)
    (r : ConfigMap) (key : GoString) (cg : Comparable) :
    (cgs.foldl (fun r cg => r.insert cg.fqPath cg) r).get key = some cg ↔
      (cg ∈ cgs ∧ cg.fqPath = key) ∨
        ((∀ other ∈ cgs, other.fqPath ≠ key) ∧ r.get key = some cg) := by
  induction cgs generalizing r with
  | nil => simp
  | cons head cgs ih =>
    have htl : ∀ first ∈ cgs, ∀ second ∈ cgs, first.fqPath = second.fqPath → first = second := by
      intro first hf second hs
      exact hin first (mem_cons_of_mem _ hf) second (mem_cons_of_mem _ hs)
    rw [foldl_cons, ih htl, get_insert, forall_mem_cons]
    by_cases hk : key = head.fqPath
    · subst hk
      rw [if_pos rfl]
      constructor
      · rintro (⟨hm, hpt⟩ | ⟨-, hhd⟩)
        · exact .inl ⟨mem_cons_of_mem _ hm, hpt⟩
        · cases hhd
          exact .inl ⟨mem_cons_self, rfl⟩
      rintro (⟨hm, hpt⟩ | ⟨⟨hne, -⟩, -⟩)
      · have heq := hin cg hm head mem_cons_self hpt
        subst heq
        by_cases hl : cg ∈ cgs
        · exact .inl ⟨hl, rfl⟩
        · refine .inr ⟨?_, rfl⟩
          intro other ho hor'
          have hel := hin other (mem_cons_of_mem _ ho) cg mem_cons_self hor'
          exact hl (hel ▸ ho)
      · exact absurd rfl hne
    · rw [if_neg hk]
      constructor
      · rintro (⟨hm, hpt⟩ | ⟨hos, hd⟩)
        · exact .inl ⟨mem_cons_of_mem _ hm, hpt⟩
        · exact .inr ⟨⟨fun heq => hk heq.symm, hos⟩, hd⟩
      rintro (⟨hm, hpt⟩ | ⟨⟨-, hos⟩, hd⟩)
      · rcases mem_cons.mp hm with rfl | hl
        · exact absurd hpt.symm hk
        · exact .inl ⟨hl, hpt⟩
      · exact .inr ⟨hos, hd⟩

/-! ## The specification of `mapConfig` -/

def ValidNames : Prop :=
  ∀ position item, group.element position = some item →
    ∀ name ∈ position.names, validateConfigID name = .ok ()

end

theorem exists_element_of_mem_names {name : GoString} (hel : group.element pos = some item)
    (hnm : name ∈ pos.names) (root : GoString) :
    ∃ other f, group.element other = some f ∧ (comparableAt [root] other f).key = name := by
  have hg : ∀ (path : List GoString) inn, group.subtree path = some inn →
      name ∈ path → ∃ other f, group.element other = some f ∧
        (comparableAt [root] other f).key = name := by
    intro _ _ hs hm
    obtain ⟨pre, after, rfl⟩ := mem_iff_append.mp hm
    have hsp : pre ++ name :: after = (pre ++ [name]) ++ after := by
      simp
    rw [hsp, LabelledTree.subtree_append, Option.bind_eq_some_iff] at hs
    obtain ⟨parent, hp, -⟩ := hs
    refine ⟨.group (pre ++ [name]), .configGroup parent, ?_, ?_⟩
    · simp [element, hp]
    · change ([root] ++ (pre ++ [name])).getLast?.getD [] = name
      rw [← append_assoc, List.getLast?_concat]
      rfl
  cases pos with
  | group path =>
    simp only [element, Option.map_eq_some_iff] at hel
    obtain ⟨inn, hs, -⟩ := hel
    exact hg path inn hs hnm
  | value path | policy path =>
    rcases mem_append.mp hnm with hm | hla
    · simp only [element, Option.bind_eq_some_iff] at hel
      obtain ⟨inn, hs, -⟩ := hel
      exact hg path inn hs hm
    · exact ⟨_, item, hel, (mem_singleton.mp hla).symm⟩

theorem key_mem_names (root : GoString) (pos : ConfigPath) (item : ConfigItem) :
    (comparableAt [root] pos item).key ∈ root :: pos.names := by
  cases pos with
  | group path =>
    have hne : [root] ++ path ≠ [] := by simp
    change ([root] ++ path).getLast?.getD [] ∈ [root] ++ path
    rw [List.getLast?_eq_some_getLast hne]
    exact getLast_mem hne
  | value | policy => simp [comparableAt, names]

theorem forall_key_valid_iff (group : ConfigGroup) (root : GoString) :
    (∀ cg ∈ comparables group [root], validateConfigID cg.key = .ok ()) ↔
      validateConfigID root = .ok () ∧ ValidNames group := by
  simp only [mem_comparables]
  constructor
  · intro ha
    have hk : ∀ pos item, group.element pos = some item →
        validateConfigID (comparableAt [root] pos item).key = .ok () := by
      intro pos item hel
      exact ha _ ⟨pos, item, hel, rfl⟩
    refine ⟨hk (.group []) _ (element_root group), ?_⟩
    intro _ _ hel _ hna
    obtain ⟨other, f, hg, rfl⟩ := exists_element_of_mem_names hel hna root
    exact hk other f hg
  · rintro ⟨hroot, hnm⟩ _ ⟨pos, item, hel, rfl⟩
    rcases mem_cons.mp (key_mem_names root pos item) with hk | hmem
    · rw [hk]
      exact hroot
    · exact hnm pos item hel _ hmem

variable {root : GoString}

section

variable (hroot : validateConfigID root = .ok ()) (hnm : ValidNames group)

include hroot hnm

theorem position_injective {other : ConfigPath} {f : ConfigItem}
    (hel : group.element pos = some item) (ho : group.element other = some f)
    (heq : (comparableAt [root] pos item).fqPath = (comparableAt [root] other f).fqPath) :
    pos = other := by
  rw [fqPath_comparableAt root hel, fqPath_comparableAt root ho] at heq
  have hsl : ∀ pos item, group.element pos = some item →
      ∀ name ∈ root :: pos.names, slash ∉ name := by
    intro pos item hel name hna
    rcases mem_cons.mp hna with rfl | hmem
    · exact slash_notMem_of_validateConfigID hroot
    · exact slash_notMem_of_validateConfigID (hnm pos item hel name hmem)
  exact fqPath_injective (hsl pos item hel) (hsl other f ho) heq

theorem comparables_injective :
    ∀ first ∈ comparables group [root], ∀ second ∈ comparables group [root],
      first.fqPath = second.fqPath → first = second := by
  simp only [mem_comparables]
  rintro _ ⟨first, item, hel, rfl⟩ _ ⟨second, other, ho, rfl⟩ heq
  obtain rfl := position_injective hroot hnm hel ho heq
  rw [hel] at ho
  cases ho
  rfl

end

variable {cm : ConfigMap}

theorem mapConfig_eq_ok_iff :
    mapConfig (some group) root = .ok cm ↔
      validateConfigID root = .ok () ∧ ValidNames group ∧
        ∀ key cg, cm.get key = some cg ↔
          ∃ pos item, group.element pos = some item ∧ pos.fqPath root = key ∧
            cg = comparableAt [root] pos item := by
  have hg : ∀ (_ : validateConfigID root = .ok ()) (_ : ValidNames group) key cg,
      ((comparables group [root]).foldl (fun r cg => r.insert cg.fqPath cg)
          SortedMap.empty).get key = some cg ↔
        ∃ pos item, group.element pos = some item ∧ pos.fqPath root = key ∧
          cg = comparableAt [root] pos item := by
    intro hroot hnm _ _
    rw [get_foldl_insert (comparables_injective hroot hnm), mem_comparables]
    simp only [get_empty, reduceCtorEq, and_false, or_false]
    constructor
    · rintro ⟨⟨pos, item, hel, rfl⟩, rfl⟩
      exact ⟨pos, item, hel, (fqPath_comparableAt root hel).symm, rfl⟩
    · rintro ⟨pos, item, hel, rfl, rfl⟩
      exact ⟨⟨pos, item, hel, rfl⟩, fqPath_comparableAt root hel⟩
  rw [mapConfig, recurseConfig_eq, foldlM_addToMap_eq_ok_iff, forall_key_valid_iff]
  constructor
  · rintro ⟨⟨hroot, hnm⟩, rfl⟩
    exact ⟨hroot, hnm, hg hroot hnm⟩
  · rintro ⟨hroot, hnm, hm⟩
    refine ⟨⟨hroot, hnm⟩, ext_get fun key => ?_⟩
    ext cg
    rw [hg hroot hnm, hm]

theorem get_mapConfig (hm : mapConfig (some group) root = .ok cm)
    (hok : ∀ name ∈ pos.names, validateConfigID name = .ok ()) :
    cm.get (pos.fqPath root) = (group.element pos).map (comparableAt [root] pos) := by
  obtain ⟨hroot, hnm, hg⟩ := mapConfig_eq_ok_iff.mp hm
  have hsl : ∀ ns : List GoString, (∀ name ∈ ns, validateConfigID name = .ok ()) →
      ∀ name ∈ root :: ns, slash ∉ name := by
    intro _ ha
    rw [forall_mem_cons]
    exact ⟨slash_notMem_of_validateConfigID hroot, fun name hna =>
      slash_notMem_of_validateConfigID (ha name hna)⟩
  ext cg
  rw [hg, Option.map_eq_some_iff]
  constructor
  · rintro ⟨other, item, hel, hk, rfl⟩
    have heq := fqPath_injective (hsl other.names (hnm other item hel)) (hsl pos.names hok) hk
    subst heq
    exact ⟨item, hel, rfl⟩
  · rintro ⟨item, hel, rfl⟩
    exact ⟨pos, item, hel, rfl, rfl⟩

theorem exists_mapConfig (hroot : validateConfigID root = .ok ()) (hnm : ValidNames group) :
    ∃ cm, mapConfig (some group) root = .ok cm := by
  refine ⟨(comparables group [root]).foldl (fun r cg => r.insert cg.fqPath cg) SortedMap.empty, ?_⟩
  rw [mapConfig, recurseConfig_eq, foldlM_addToMap_eq_ok_iff, forall_key_valid_iff]
  exact ⟨⟨hroot, hnm⟩, rfl⟩

end FabricSequencer
