import FabricSequencer.GoTypes
import FabricSequencer.LabelledTree
import Mathlib.Data.List.TakeWhile

/-!
# Channel configuration trees

A configuration is a tree of groups.  Every group has its own version and
`mod_policy` and holds values, policies and further groups under names.
-/

namespace FabricSequencer

def maxLength : ℕ := 249

/-- The class `[a-zA-Z0-9.-]`. -/
def configAllowedChar (character : Byte) : Bool :=
  (97 ≤ character && character ≤ 122) || (65 ≤ character && character ≤ 90) ||
    (48 ≤ character && character ≤ 57) || character == 46 || character == 45

/-- `FindString` for a class repeated: the first run of allowed characters. -/
def findAllowed (starts continues : Byte → Bool) (text : GoString) : GoString :=
  (text.dropWhile fun character => !starts character).takeWhile continues

def validateConfigID (configID : GoString) : Outcome Unit :=
  if configID.length ≤ 0 then
    .error (.error "config ID illegal, cannot be empty")
  else if configID.length > maxLength then
    .error (.error ("config ID illegal, cannot be longer than " ++ toString maxLength))
  else if configID = ascii "." ∨ configID = ascii ".." then
    .error (.error ("name '" ++ printed configID ++ "' for config ID is not allowed"))
  else if (findAllowed configAllowedChar configAllowedChar configID).length ≠ configID.length then
    .error (.error ("config ID '" ++ printed configID ++ "' contains illegal characters"))
  else .ok ()

/-- The class `[a-z]` and the class `[a-z0-9.-]`. -/
def channelFirstChar (character : Byte) : Bool := 97 ≤ character && character ≤ 122

def channelAllowedChar (character : Byte) : Bool :=
  channelFirstChar character || (48 ≤ character && character ≤ 57) ||
    character == 46 || character == 45

def validateChannelID (channelID : GoString) : Outcome Unit :=
  if channelID.length ≤ 0 then
    .error (.error "channel ID illegal, cannot be empty")
  else if channelID.length > maxLength then
    .error (.error ("channel ID illegal, cannot be longer than " ++ toString maxLength))
  else if (findAllowed channelFirstChar channelAllowedChar channelID).length ≠ channelID.length then
    .error (.error ("'" ++ printed channelID ++ "' contains illegal characters"))
  else .ok ()

def slash : Byte := 47

def pathSeparator : GoString := [slash]

/-- `validateModPolicy` after the first check; the index is for the message. -/
def validatePathElements : ℕ → List GoString → Outcome Unit
  | _, [] => .ok ()
  | index, pathElement :: rest => do
      (validateConfigID pathElement).withMessage
        ("path element at " ++ toString index ++ " is invalid")
      validatePathElements (index + 1) rest

def validateModPolicy (modPolicy : GoString) : Outcome Unit :=
  match modPolicy with
  | [] => .error (.error "mod_policy not set")
  | first :: rest =>
    let trimmed := if first = slash then rest else first :: rest
    validatePathElements 0 (trimmed.splitOn slash)

theorem findAllowed_sublist (starts continues : Byte → Bool)
    (text : GoString) : (findAllowed starts continues text).Sublist text :=
  (List.takeWhile_sublist _).trans (List.dropWhile_sublist _)

theorem slash_notMem_of_validateConfigID {configID : GoString}
    (hok : validateConfigID configID = .ok ()) : slash ∉ configID := by
  unfold validateConfigID at hok
  split_ifs at hok with hnil hlong hillegal hchars
  have ha := (findAllowed_sublist configAllowedChar configAllowedChar
    configID).eq_of_length (not_not.mp hchars)
  intro hm
  rw [← ha] at hm
  have hl := List.mem_takeWhile_imp hm
  exact absurd hl (by decide)

theorem ne_nil_of_validateModPolicy {modPolicy : GoString}
    (hok : validateModPolicy modPolicy = .ok ()) : modPolicy ≠ [] := by
  rintro rfl
  cases hok

structure ConfigValue where
  version : ℕ
  value : Bytes
  modPolicy : GoString
deriving DecidableEq

structure Policy where
  type : ℤ
  value : Bytes
deriving DecidableEq

structure ConfigPolicy where
  version : ℕ
  policy : Option Policy
  modPolicy : GoString
deriving DecidableEq

/-- The fields of a `ConfigGroup` other than `Groups`. -/
structure GroupFields where
  version : ℕ
  values : SortedMap GoString ConfigValue
  policies : SortedMap GoString ConfigPolicy
  modPolicy : GoString
deriving DecidableEq

abbrev ConfigGroup := LabelledTree GoString GroupFields

namespace ConfigGroup

def version (group : ConfigGroup) : ℕ := group.label.version

def groups (group : ConfigGroup) : SortedMap GoString ConfigGroup := group.children

def values (group : ConfigGroup) : SortedMap GoString ConfigValue := group.label.values

def policies (group : ConfigGroup) : SortedMap GoString ConfigPolicy := group.label.policies

def modPolicy (group : ConfigGroup) : GoString := group.label.modPolicy

/-- The composite literal `&cb.ConfigGroup`. -/
def literal (version : ℕ) (groups : SortedMap GoString ConfigGroup)
    (values : SortedMap GoString ConfigValue)
    (policies : SortedMap GoString ConfigPolicy) (modPolicy : GoString) :
    ConfigGroup :=
  LabelledTree.build
    { version := version, values := values, policies := policies
      modPolicy := modPolicy } groups

theorem induction {motive : ConfigGroup → Prop}
    (hstep : ∀ group : ConfigGroup,
      (∀ name inner, group.groups.get name = some inner → motive inner) → motive group)
    (group : ConfigGroup) : motive group :=
  LabelledTree.induction hstep group

section Literal

variable (number : ℕ) (inner : SortedMap GoString ConfigGroup)
  (held : SortedMap GoString ConfigValue)
  (rules : SortedMap GoString ConfigPolicy) (named : GoString)

@[simp] theorem version_literal : version (literal number inner held rules named) = number := rfl

@[simp] theorem groups_literal : groups (literal number inner held rules named) = inner :=
  LabelledTree.children_build _ inner

@[simp] theorem values_literal : values (literal number inner held rules named) = held := rfl

@[simp] theorem policies_literal : policies (literal number inner held rules named) = rules := rfl

@[simp] theorem modPolicy_literal : modPolicy (literal number inner held rules named) = named := rfl

end Literal

end ConfigGroup

def newConfigGroup : ConfigGroup :=
  ConfigGroup.literal 0 SortedMap.empty SortedMap.empty SortedMap.empty []

/-! ## Elements -/

inductive ConfigItem where
  | configGroup (group : ConfigGroup)
  | configValue (value : ConfigValue)
  | configPolicy (policy : ConfigPolicy)

inductive OwnFields where
  | group (version : ℕ) (modPolicy : GoString) (groups values policies : List GoString)
  | value (value : ConfigValue)
  | policy (policy : ConfigPolicy)
deriving DecidableEq

namespace ConfigItem

def version : ConfigItem → ℕ
  | .configGroup group => group.version
  | .configValue value => value.version
  | .configPolicy policy => policy.version

def modPolicy : ConfigItem → GoString
  | .configGroup group => group.modPolicy
  | .configValue value => value.modPolicy
  | .configPolicy policy => policy.modPolicy

def own : ConfigItem → OwnFields
  | .configGroup group =>
    .group group.version group.modPolicy group.groups.keys group.values.keys group.policies.keys
  | .configValue value => .value value
  | .configPolicy policy => .policy policy

end ConfigItem

namespace OwnFields

def version : OwnFields → ℕ
  | .group number _ _ _ _ => number
  | .value held => held.version
  | .policy rule => rule.version

def modPolicy : OwnFields → GoString
  | .group _ named _ _ _ => named
  | .value held => held.modPolicy
  | .policy rule => rule.modPolicy

def withVersion (number : ℕ) : OwnFields → OwnFields
  | .group _ named groups values policies => .group number named groups values policies
  | .value held => .value { held with version := number }
  | .policy rule => .policy { rule with version := number }

def withModPolicy (named : GoString) : OwnFields → OwnFields
  | .group number _ groups values policies => .group number named groups values policies
  | .value held => .value { held with modPolicy := named }
  | .policy rule => .policy { rule with modPolicy := named }

theorem withModPolicy_eq_iff {fs : OwnFields} {named : GoString} :
    fs.withModPolicy named = fs ↔ named = fs.modPolicy := by
  rcases fs with _ | ⟨_, _, _⟩ | ⟨_, _, _⟩ <;> simp [withModPolicy, modPolicy]

end OwnFields

section

variable (item : ConfigItem)

@[simp] theorem ConfigItem.version_own : item.own.version = item.version := by
  cases item <;> rfl

@[simp] theorem ConfigItem.modPolicy_own : item.own.modPolicy = item.modPolicy := by
  cases item <;> rfl

/-- What an element holds itself apart from its version. -/
def ConfigItem.content : OwnFields := item.own.withVersion 0

end

def ConfigItem.SameShape : ConfigItem → ConfigItem → Prop
  | .configGroup first, .configGroup second =>
    first.groups.keys = second.groups.keys ∧ first.values.keys = second.values.keys ∧
      first.policies.keys = second.policies.keys
  | .configValue _, .configValue _ => True
  | .configPolicy _, .configPolicy _ => True
  | _, _ => False

theorem ConfigItem.sameShape_of_content_eq {first second : ConfigItem}
    (hcn : first.content = second.content) : first.SameShape second := by
  cases first <;> cases second <;>
    simp_all [ConfigItem.content, ConfigItem.own, OwnFields.withVersion, ConfigItem.SameShape]

inductive ConfigPath where
  | group (path : List GoString)
  | value (path : List GoString) (name : GoString)
  | policy (path : List GoString) (name : GoString)
deriving DecidableEq

namespace ConfigPath

def names : ConfigPath → List GoString
  | .group path => path
  | .value path name => path ++ [name]
  | .policy path name => path ++ [name]

def parent : ConfigPath → Option (List GoString)
  | .group [] => none
  | .group (name :: path) => some (name :: path).dropLast
  | .value path _ => some path
  | .policy path _ => some path

def within (name : GoString) : ConfigPath → ConfigPath
  | .group path => .group (name :: path)
  | .value path last => .value (name :: path) last
  | .policy path last => .policy (name :: path) last

end ConfigPath

namespace ConfigGroup

variable (group : ConfigGroup)

def element : ConfigPath → Option ConfigItem
  | .group path => (group.subtree path).map .configGroup
  | .value path name =>
    (group.subtree path).bind fun inner =>
      (values inner |>.get name).map .configValue
  | .policy path name =>
    (group.subtree path).bind fun inner =>
      (policies inner |>.get name).map .configPolicy

variable (name : GoString)

theorem element_within (path : ConfigPath) :
    group.element (path.within name) =
      (group.groups.get name).bind fun inner => element inner path := by
  cases path <;>
    simp [element, ConfigPath.within, LabelledTree.subtree_cons, groups,
      Option.map_bind, Option.bind_assoc]

@[simp] theorem element_root : group.element (.group []) = some (.configGroup group) := by
  simp [element]

@[simp] theorem element_value_nil :
    group.element (.value [] name) = (group.values.get name).map .configValue := by
  simp [element]

@[simp] theorem element_policy_nil :
    group.element (.policy [] name) = (group.policies.get name).map .configPolicy := by
  simp [element]

end ConfigGroup

theorem ConfigPath.induction_within {motive : ConfigPath → Prop} (hroot : motive (.group []))
    (hval : ∀ name, motive (.value [] name)) (hpol : ∀ name, motive (.policy [] name))
    (hwithin : ∀ name (path : ConfigPath), motive path → motive (path.within name))
    (path : ConfigPath) : motive path := by
  cases path with
  | group path =>
    induction path with
    | nil => exact hroot
    | cons name path ih => exact hwithin name (.group path) ih
  | value path la =>
    induction path with
    | nil => exact hval la
    | cons name path ih => exact hwithin name (.value path la) ih
  | policy path la =>
    induction path with
    | nil => exact hpol la
    | cons name path ih => exact hwithin name (.policy path la) ih

end FabricSequencer
