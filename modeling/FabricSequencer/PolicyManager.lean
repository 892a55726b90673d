import FabricSequencer.BlockData
import FabricSequencer.ConfigTree

/-!
# The policy manager

`NewManagerImpl` compiles the policies of a tree of groups.  Each manager has a
map from relative paths to the policies of its group and of all groups below
it.  `GetPolicy` looks an identifier up in that map, after it has taken the
path of the manager off an absolute identifier.

Names are not checked here: a group or a policy may have an empty name, or one
with a slash, and two policies may have the same relative path.  Which of them
stays in the map depends on the order in which the groups are visited.
-/

namespace FabricSequencer.PolicyManager

open Protoutil SortedMap List LabelledTree

/-- A policy in a manager, or one that `GetPolicy` returns.  Those of the
providers are of the type `P`. -/
inductive CompiledPolicy (P : Type) where
  | compiled (policy : P)
  | implicitMeta (threshold : ℕ) (subPolicies : List (CompiledPolicy P)) (subPolicyName : GoString)
  | rejectPolicy (id : GoString)
  | policyLogger (policy : CompiledPolicy P) (policyName : GoString)

structure ManagerFields (P : Type) where
  path : GoString
  policies : SortedMap GoString (CompiledPolicy P)

abbrev ManagerImpl (P : Type) := LabelledTree GoString (ManagerFields P)

structure PolicyCodec (P : Type) where
  providers : ℤ → Option (Bytes → Except String P)
  order : GoString → ConfigGroup → List GoString
  order_perm : ∀ path group, (order path group).Perm group.groups.keys

namespace ManagerImpl

variable {P : Type}

def path (m : ManagerImpl P) : GoString := m.label.path

def policies (m : ManagerImpl P) : SortedMap GoString (CompiledPolicy P) := m.label.policies

variable (m : ManagerImpl P)

def managers : SortedMap GoString (ManagerImpl P) := m.children

def manager (path : List GoString) : Option (ManagerImpl P) := m.subtree path

/-- The end of `GetPolicy`. -/
def find (relpath : GoString) : CompiledPolicy P × Bool :=
  match m.policies.get relpath with
  | none => (.rejectPolicy relpath, false)
  | some policy =>
    (.policyLogger policy (pathSeparator ++ m.path ++ pathSeparator ++ relpath), true)

/-- `GetPolicy`.  The slice expression takes the path and one more byte off an
absolute identifier. -/
def getPolicy (id : GoString) : Outcome (CompiledPolicy P × Bool) :=
  if id = [] then .ok (.rejectPolicy id, false)
  else if pathSeparator <+: id then
    if ¬ (pathSeparator ++ m.path) <+: id then .ok (.rejectPolicy id, false)
    else if id.length < 1 + m.path.length + 1 then
      .error (.panic ("slice bounds out of range [" ++
        toString (1 + m.path.length + 1) ++ ":" ++ toString id.length ++ "]"))
    else .ok (m.find (id.drop (1 + m.path.length + 1)))
  else .ok (m.find id)

end ManagerImpl

/-! ## Building a manager -/

def implicitMetaType : ℤ := 3

structure ImplicitMetaPolicy where
  subPolicy : GoString := []
  rule : ℤ := 0

def ImplicitMetaPolicy.set (policy : ImplicitMetaPolicy)
    (field : ProtoWire.Field) : Except ProtoWire.WireError ImplicitMetaPolicy :=
  if field.tag = 10 then
    if utf8Valid field.content then
      .ok { policy with subPolicy := field.content }
    else .error .reserved
  else if field.tag = 16 then .ok { policy with rule := int32 field.scalar }
  else .ok policy

def unmarshalImplicitMetaPolicy (input : Bytes) :
    Except ProtoWire.WireError ImplicitMetaPolicy := do
  let fields ← ProtoWire.fieldsOf input
  fields.foldlM ImplicitMetaPolicy.set {}

def implicitThreshold (rule : ℤ) (subPolicies : ℕ) : ℕ :=
  if subPolicies = 0 then 0
  else if rule = 0 then 1
  else if rule = 1 then subPolicies
  else if rule = 2 then subPolicies / 2 + 1
  else 0

variable {P : Type} (codec : PolicyCodec P)

def newImplicitMetaPolicy (data : Bytes) (managers : SortedMap GoString (ManagerImpl P)) :
    Outcome (CompiledPolicy P) :=
  match unmarshalImplicitMetaPolicy data with
  | .error _ => .error (.error ("Error unmarshalling to ImplicitMetaPolicy: " ++ unmarshalText))
  | .ok definition => do
      let subPolicies ← managers.entries.mapM fun entry =>
        ManagerImpl.getPolicy entry.2 definition.subPolicy
      pure (.implicitMeta (implicitThreshold definition.rule subPolicies.length)
        (subPolicies.map Prod.fst) definition.subPolicy)

def compile (path : GoString) (managers : SortedMap GoString (ManagerImpl P))
    (policyName : GoString) (configPolicy : ConfigPolicy) : Outcome (CompiledPolicy P) :=
  let place := "policy " ++ printed policyName ++ " at path " ++ printed path
  match configPolicy.policy with
  | none => .error (.error (place ++ " was nil"))
  | some policy =>
    if policy.type = implicitMetaType then
      (newImplicitMetaPolicy policy.value managers).withMessage
        ("implicit " ++ place ++ " did not compile")
    else
      match codec.providers policy.type with
      | none => .error (.error (place ++ " has unknown policy type: " ++ toString policy.type))
      | some newPolicy => do
          let compiled ←
            (Outcome.returned (newPolicy policy.value)).withMessage (place ++ " did not compile")
          pure (.compiled compiled)

def nestedPolicies (names : List GoString) (managers : SortedMap GoString (ManagerImpl P)) :
    List (GoString × CompiledPolicy P) :=
  names.flatMap fun groupName =>
    match managers.get groupName with
    | none => []
    | some manager =>
      (ManagerImpl.policies manager).entries.map fun entry =>
        (groupName ++ pathSeparator ++ entry.1, entry.2)

/-- `NewManagerImpl` of a group, given the constructors of the groups below. -/
def newManagerStep (group : ConfigGroup)
    (construct : SortedMap GoString (GoString → Outcome (ManagerImpl P)))
    (path : GoString) : Outcome (ManagerImpl P) :=
  if (codec.providers implicitMetaType).isSome then
    .error (.panic "ImplicitMetaPolicy type must be provider by the policy manager")
  else do
    let managers ← construct.traverse fun groupName newManager =>
      newManager (path ++ pathSeparator ++ groupName)
    let policies ← group.policies.traverse fun policyName configPolicy =>
      compile codec path managers policyName configPolicy
    pure (LabelledTree.build
      { path := path
        policies := policies.insertAll
          (nestedPolicies (codec.order path group) managers) } managers)

def newManagerImpl (path : GoString) (root : ConfigGroup) : Outcome (ManagerImpl P) :=
  LabelledTree.recurse (newManagerStep codec) root path

theorem newManagerImpl_eq (path : GoString) (root : ConfigGroup) :
    newManagerImpl codec path root =
      newManagerStep codec root (root.groups.map fun inn path => newManagerImpl codec path inn)
        path := by
  unfold newManagerImpl
  rw [recurse_eq]
  rfl

structure Built (path : GoString) (group : ConfigGroup) (m : ManagerImpl P) : Prop where
  path_eq : m.path = path
  managers : ∀ name,
    (group.groups.get name = none ∧ m.managers.get name = none) ∨
      ∃ inner sub, group.groups.get name = some inner ∧
        newManagerImpl codec (path ++ pathSeparator ++ name) inner = .ok sub ∧
        m.managers.get name = some sub
  policies : ∃ own : SortedMap GoString (CompiledPolicy P),
    m.policies = own.insertAll (nestedPolicies (codec.order path group) m.managers) ∧
      ∀ name, (group.policies.get name = none ∧ own.get name = none) ∨
        ∃ configPolicy policy, group.policies.get name = some configPolicy ∧
          compile codec path m.managers name configPolicy = .ok policy ∧
          own.get name = some policy

variable {path : GoString} {group g : ConfigGroup}

theorem built_of_newManagerImpl {m : ManagerImpl P} (hn : newManagerImpl codec path g = .ok m) :
    Built codec path g m := by
  rw [newManagerImpl_eq, newManagerStep] at hn
  split_ifs at hn
  obtain ⟨managers, hmn, hn⟩ := of_bind hn
  obtain ⟨own, hw, hpu⟩ := of_bind hn
  cases hpu
  constructor
  · rfl
  · intro nm
    rw [show ManagerImpl.managers (LabelledTree.build _ managers) = managers from
      children_build _ _]
    rcases traverse_get hmn nm with ⟨hs, hr⟩ | ⟨newManager, sub, hs, hcm, hr⟩
    · rw [SortedMap.get_map, Option.map_eq_none_iff] at hs
      exact .inl ⟨hs, hr⟩
    · rw [SortedMap.get_map, Option.map_eq_some_iff] at hs
      obtain ⟨inn, hin, rfl⟩ := hs
      exact .inr ⟨inn, sub, hin, hcm, hr⟩
  · rw [show ManagerImpl.managers (LabelledTree.build _ managers) = managers from
      children_build _ _]
    refine ⟨own, rfl, ?_⟩
    intro nm
    exact traverse_get hw nm

inductive Defines : ManagerImpl P → ConfigGroup → GoString → CompiledPolicy P → Prop
  | own (m : ManagerImpl P) (group : ConfigGroup) (name : GoString)
      (configPolicy : ConfigPolicy) (policy : CompiledPolicy P)
      (hget : group.policies.get name = some configPolicy)
      (hcompile : compile codec m.path m.managers name configPolicy =
        .ok policy) : Defines m group name policy
  | nested (m : ManagerImpl P) (group : ConfigGroup) (name : GoString)
      (sub : ManagerImpl P) (inner : ConfigGroup) (relpath : GoString)
      (policy : CompiledPolicy P)
      (hgroup : group.groups.get name = some inner)
      (hmanager : m.managers.get name = some sub)
      (hinner : Defines sub inner relpath policy) :
      Defines m group (name ++ pathSeparator ++ relpath) policy

variable {policy pol : CompiledPolicy P}

theorem mem_nestedPolicies_iff {ns : List GoString}
    {managers : SortedMap GoString (ManagerImpl P)} {rel : GoString} :
    (rel, pol) ∈ nestedPolicies ns managers ↔
      ∃ nm ∈ ns, ∃ sub rest, managers.get nm = some sub ∧ sub.policies.get rest = some pol ∧
        rel = nm ++ pathSeparator ++ rest := by
  unfold nestedPolicies
  rw [mem_flatMap]
  constructor
  · rintro ⟨nm, hnm, hm⟩
    refine ⟨nm, hnm, ?_⟩
    cases hg : managers.get nm with
    | none =>
      rw [hg] at hm
      cases hm
    | some sub =>
      rw [hg] at hm
      obtain ⟨⟨rest, _⟩, he, heq⟩ := mem_map.mp hm
      cases heq
      exact ⟨sub, rest, rfl, get_eq_some_iff.mpr he, rfl⟩
  · rintro ⟨nm, hnm, _, rest, hg, hpol, rfl⟩
    refine ⟨nm, hnm, ?_⟩
    rw [hg]
    exact mem_map.mpr ⟨(rest, pol), get_eq_some_iff.mp hpol, rfl⟩

theorem policies_of_newManagerImpl {m : ManagerImpl P} (hn : newManagerImpl codec path g = .ok m) :
    (∀ rel pol, m.policies.get rel = some pol → Defines codec m g rel pol) ∧
    ∀ rel pol, Defines codec m g rel pol → ∃ found, m.policies.get rel = some found := by
  induction g using ConfigGroup.induction generalizing path m with
  | hstep g ih =>
    have hbl := built_of_newManagerImpl codec hn
    obtain ⟨own, hpl, hw⟩ := hbl.policies
    constructor
    · intro rel pol hg
      rw [hpl] at hg
      rcases mem_of_get_insertAll hg with hm | ⟨-, hg⟩
      · obtain ⟨nm, -, sub, tl, hs, hrs, rfl⟩ := mem_nestedPolicies_iff.mp hm
        rcases hbl.managers nm with ⟨-, hno⟩ | ⟨inn, _, hin, hfn, heq⟩
        · rw [hno] at hs
          cases hs
        · rw [heq] at hs
          cases hs
          exact .nested m g nm sub inn tl pol hin heq ((ih nm inn hin hfn).1 tl pol hrs)
      · rcases hw rel with ⟨-, hno⟩ | ⟨configPolicy, _, hc, hp, hfn⟩
        · rw [hno] at hg
          cases hg
        · rw [hfn] at hg
          cases hg
          rw [← hbl.path_eq] at hp
          exact .own m g rel configPolicy pol hc hp
    · intro rel pol hd
      rw [hpl]
      cases hd with
      | own _ _ _ _ _ hg =>
        by_cases hm : ∃ other, (rel, other) ∈ nestedPolicies (codec.order path g) m.managers
        · obtain ⟨_, ho⟩ := hm
          obtain ⟨la, hla, -⟩ := exists_get_insertAll own ho
          exact ⟨la, hla⟩
        rw [not_exists] at hm
        rw [get_insertAll_of_not_mem hm]
        rcases hw rel with ⟨hno, -⟩ | ⟨_, found, -, -, hfn⟩
        · rw [hno] at hg
          cases hg
        · exact ⟨found, hfn⟩
      | nested _ _ nm sub inn tl _ hr hmng hin =>
        rcases hbl.managers nm with ⟨hno, -⟩ | ⟨_, _, heq, hfn, hg⟩
        · rw [hno] at hr
          cases hr
        rw [hr] at heq
        cases heq
        rw [hmng] at hg
        cases hg
        obtain ⟨_, ho⟩ := (ih nm inn hr hfn).2 tl pol hin
        have hnm : nm ∈ codec.order path g := by
          rw [(codec.order_perm path g).mem_iff, mem_keys_iff]
          exact ⟨inn, hr⟩
        obtain ⟨la, hla, -⟩ :=
          exists_get_insertAll own (mem_nestedPolicies_iff.mpr ⟨nm, hnm, sub, tl, hmng, ho, rfl⟩)
        exact ⟨la, hla⟩

open ManagerImpl

theorem exists_group_of_manager {m sub : ManagerImpl P} (hn : newManagerImpl codec path g = .ok m)
    {ns : List GoString} (hs : m.manager ns = some sub) :
    ∃ inn subPath, g.subtree ns = some inn ∧ newManagerImpl codec subPath inn = .ok sub := by
  unfold manager at hs
  induction ns generalizing path g m with
  | nil =>
    rw [subtree_nil] at hs
    cases hs
    exact ⟨g, path, subtree_nil g, hn⟩
  | cons nm _ ih =>
    rw [subtree_cons, Option.bind_eq_some_iff] at hs
    obtain ⟨_, hch, hs⟩ := hs
    rcases (built_of_newManagerImpl codec hn).managers nm with ⟨-, hno⟩ | ⟨inn, f, hin, hfn, hg⟩
    · rw [show managers m = m.children from rfl, hch] at hno
      cases hno
    rw [show managers m = m.children from rfl, hch] at hg
    cases hg
    obtain ⟨la, subPath, hla, hbl⟩ := ih hfn hs
    refine ⟨la, subPath, ?_, hbl⟩
    rw [subtree_cons, show g.children.get nm = some inn from hin]
    exact hla

/-! ## Looking up an identifier -/

variable (m : ManagerImpl P)

def absolutePath (relpath : GoString) : GoString :=
  pathSeparator ++ m.path ++ pathSeparator ++ relpath

variable (group g : ConfigGroup)

def Means (id : GoString) (policy : CompiledPolicy P) : Prop :=
  ∃ relpath, (id = relpath ∨ id = absolutePath m relpath) ∧ Defines codec m group relpath policy

/-- `GetPolicy` gives a policy that the identifier stands for, or the reject
policy if there is none. -/
def Resolves (id : GoString) : Prop :=
  (∃ policy name, Means codec m group id policy ∧
      m.getPolicy id = .ok (.policyLogger policy name, true)) ∨
    (∀ policy, ¬ Means codec m group id policy) ∧
      ∃ text, m.getPolicy id = .ok (.rejectPolicy text, false)

def Defined (relpath : GoString) : Prop :=
  ∃ policy, Defines codec m group relpath policy

/-- The identifiers that are read as they are meant.  A relative path that
begins with a slash is taken for an absolute one, and of an absolute one the
byte after the path of the manager is not looked at. -/
inductive ReadAsMeant (m : ManagerImpl P) (group : ConfigGroup) : GoString → Prop
  | relative (id : GoString) (hrelative : ¬ pathSeparator <+: id) : ReadAsMeant m group id
  | elsewhere (id : GoString) (habsolute : pathSeparator <+: id)
      (helsewhere : ¬ (pathSeparator ++ m.path) <+: id)
      (hundefined : ¬ Defined codec m group id) : ReadAsMeant m group id
  | separated (relpath : GoString)
      (hdefined : Defined codec m group relpath ∨
        ¬ Defined codec m group (absolutePath m relpath)) :
      ReadAsMeant m group (absolutePath m relpath)
  | unseparated (byte : Byte) (relpath : GoString) (hbyte : byte ≠ slash)
      (hundefined : ¬ Defined codec m group relpath)
      (hid : ¬ Defined codec m group (pathSeparator ++ m.path ++ byte :: relpath)) :
      ReadAsMeant m group (pathSeparator ++ m.path ++ byte :: relpath)
  | shared (byte : Byte) (relpath : GoString) (policy : CompiledPolicy P)
      (hbyte : byte ≠ slash) (hget : m.policies.get relpath = some policy)
      (hid : Defines codec m group (pathSeparator ++ m.path ++ byte :: relpath) policy) :
      ReadAsMeant m group (pathSeparator ++ m.path ++ byte :: relpath)

variable {id : GoString}

theorem getPolicy_of_relative (m : ManagerImpl P) (hid : id ≠ []) (hrl : ¬ pathSeparator <+: id) :
    m.getPolicy id = .ok (m.find id) := by
  rw [getPolicy, if_neg hid, if_neg hrl]

theorem ne_nil_of_absolute (hb : pathSeparator <+: id) : id ≠ [] := by
  rintro rfl
  exact absurd (prefix_nil.mp hb) (by simp [pathSeparator])

theorem getPolicy_of_elsewhere (m : ManagerImpl P) (hb : pathSeparator <+: id)
    (hel : ¬ (pathSeparator ++ m.path) <+: id) :
    m.getPolicy id = .ok (.rejectPolicy id, false) := by
  rw [getPolicy, if_neg (ne_nil_of_absolute hb), if_pos hb, if_pos hel]

theorem startsWith_separator (rest : GoString) :
    pathSeparator <+: pathSeparator ++ m.path ++ rest := by
  rw [append_assoc]
  exact prefix_append _ _

theorem length_separator_append : (pathSeparator ++ m.path).length = 1 + m.path.length := by
  simp [pathSeparator, add_comm]

theorem getPolicy_of_path :
    ∃ text, m.getPolicy (pathSeparator ++ m.path) = .error (.panic text) := by
  have hb : pathSeparator <+: pathSeparator ++ m.path := prefix_append _ _
  have hl := length_separator_append m
  rw [getPolicy, if_neg (ne_nil_of_absolute hb), if_pos hb, if_neg (not_not.mpr (prefix_refl _)),
    if_pos (by omega)]
  exact ⟨_, rfl⟩

theorem getPolicy_of_beyond (byte : Byte) (rel : GoString) :
    m.getPolicy (pathSeparator ++ m.path ++ byte :: rel) = .ok (m.find rel) := by
  have hb := startsWith_separator m (byte :: rel)
  have hl := length_separator_append m
  have hdr : (pathSeparator ++ m.path ++ byte :: rel).drop (1 + m.path.length + 1) = rel := by
    rw [← hl, ← drop_drop, drop_left]
    rfl
  have hln : ¬ (pathSeparator ++ m.path ++ byte :: rel).length < 1 + m.path.length + 1 := by
    rw [length_append, hl, length_cons]
    omega
  rw [getPolicy, if_neg (ne_nil_of_absolute hb),
    if_pos hb, if_neg (not_not.mpr (prefix_append _ _)), if_neg hln, hdr]

section Lookup

variable {codec} {m : ManagerImpl P} {group g : ConfigGroup}

structure Indexed (codec : PolicyCodec P) (m : ManagerImpl P) (group : ConfigGroup) : Prop where
  sound : ∀ relpath policy, m.policies.get relpath = some policy →
    Defines codec m group relpath policy
  complete : ∀ relpath, Defined codec m group relpath → ∃ found, m.policies.get relpath = some found

theorem Indexed.find_cases (hidx : Indexed codec m g) (rel : GoString) :
    (∃ pol nm, Defines codec m g rel pol ∧ m.policies.get rel = some pol ∧
        m.find rel = (.policyLogger pol nm, true)) ∨
      ¬ Defined codec m g rel ∧ m.find rel = (.rejectPolicy rel, false) := by
  cases hg : m.policies.get rel with
  | none =>
    refine .inr ⟨?_, by rw [find, hg]⟩
    intro hd
    obtain ⟨_, hfn⟩ := hidx.complete rel hd
    rw [hg] at hfn
    cases hfn
  | some pol =>
    refine .inl ⟨pol, absolutePath m rel, hidx.sound rel pol hg, rfl, ?_⟩
    rw [find, hg]
    rfl

theorem absolutePath_eq (rel : GoString) :
    absolutePath m rel = pathSeparator ++ m.path ++ slash :: rel := by
  simp [absolutePath, pathSeparator]

variable {id : GoString}

theorem ne_absolutePath_of_elsewhere (hel : ¬ (pathSeparator ++ m.path) <+: id) (rel : GoString) :
    id ≠ absolutePath m rel := by
  rintro rfl
  rw [absolutePath_eq] at hel
  exact hel (prefix_append _ _)

theorem means_iff_of_not_absolute (hid : ∀ rel, id ≠ absolutePath m rel) :
    Means codec m g id pol ↔ Defines codec m g id pol := by
  constructor
  · rintro ⟨rel, rfl | hb, hd⟩
    · exact hd
    · exact absurd hb (hid rel)
  · intro hd
    exact ⟨id, .inl rfl, hd⟩

theorem means_absolutePath_iff {rel : GoString} :
    Means codec m g (absolutePath m rel) pol ↔
      Defines codec m g (absolutePath m rel) pol ∨ Defines codec m g rel pol := by
  constructor
  · rintro ⟨_, rfl | heq, hd⟩
    · exact .inl hd
    · rw [append_cancel_left heq]
      exact .inr hd
  · rintro (hd | hd)
    · exact ⟨_, .inl rfl, hd⟩
    · exact ⟨rel, .inr rfl, hd⟩

theorem unseparated_ne_absolutePath {byte : Byte} (hby : byte ≠ slash) (rel other : GoString) :
    pathSeparator ++ m.path ++ byte :: rel ≠ absolutePath m other := by
  intro heq
  rw [absolutePath_eq] at heq
  exact hby (List.cons.inj (append_cancel_left heq)).1

theorem resolves_iff_of_find (hidx : Indexed codec m g)
    {id rel : GoString} (hg : m.getPolicy id = .ok (m.find rel)) :
    Resolves codec m g id ↔
      (∃ pol, m.policies.get rel = some pol ∧ Means codec m g id pol) ∨
        ¬ Defined codec m g rel ∧ ∀ pol, ¬ Means codec m g id pol := by
  unfold Resolves
  rw [hg]
  rcases hidx.find_cases rel with ⟨pol, nm, hd, hpol, hfn⟩ | ⟨hun, hfn⟩
  · rw [hfn, hpol]
    have hf : Defined codec m g rel := ⟨pol, hd⟩
    simp [hf]
  have hno : m.policies.get rel = none := by
    cases hpol : m.policies.get rel with
    | none => rfl
    | some pol => exact absurd ⟨pol, hidx.sound rel pol hpol⟩ hun
  rw [hfn, hno]
  simp [hun]

theorem not_forall_means_iff (hid : ∀ rel, id ≠ absolutePath m rel) :
    (∀ pol, ¬ Means codec m g id pol) ↔ ¬ Defined codec m g id := by
  unfold Defined
  simp only [means_iff_of_not_absolute hid, not_exists]

theorem Indexed.resolves_relative (hidx : Indexed codec m g) (hid : id ≠ [])
    (hrl : ¬ pathSeparator <+: id) :
    Resolves codec m g id := by
  have hnt : ∀ rel, id ≠ absolutePath m rel := by
    rintro rel rfl
    rw [absolutePath_eq] at hrl
    exact hrl (startsWith_separator m _)
  rw [resolves_iff_of_find hidx (getPolicy_of_relative m hid hrl), not_forall_means_iff hnt]
  by_cases hd : Defined codec m g id
  · obtain ⟨f, hg⟩ := hidx.complete id hd
    refine .inl ⟨f, hg, ?_⟩
    exact ⟨id, .inl rfl, hidx.sound id f hg⟩
  · exact .inr ⟨hd, hd⟩

theorem resolves_elsewhere_iff (hb : pathSeparator <+: id)
    (hel : ¬ (pathSeparator ++ m.path) <+: id) :
    Resolves codec m g id ↔ ¬ Defined codec m g id := by
  unfold Resolves
  rw [getPolicy_of_elsewhere m hb hel, not_forall_means_iff (ne_absolutePath_of_elsewhere hel)]
  simp

variable (hidx : Indexed codec m g)

include hidx

theorem Indexed.resolves_separated_iff (rel : GoString) :
    Resolves codec m g (absolutePath m rel) ↔
      (Defined codec m g rel ∨ ¬ Defined codec m g (absolutePath m rel)) := by
  have hg := getPolicy_of_beyond m slash rel
  rw [← absolutePath_eq] at hg
  rw [resolves_iff_of_find hidx hg]
  by_cases hf : Defined codec m g rel
  · obtain ⟨f, hfn⟩ := hidx.complete rel hf
    have hd := hidx.sound rel f hfn
    exact iff_of_true (.inl ⟨f, hfn, means_absolutePath_iff.mpr (.inr hd)⟩) (.inl hf)
  constructor
  · rintro (⟨pol, hpol, -⟩ | ⟨-, hmn⟩)
    · exact .inl ⟨pol, hidx.sound rel pol hpol⟩
    · right
      rintro ⟨pol, hd⟩
      exact hmn pol (means_absolutePath_iff.mpr (.inl hd))
  rintro (hd | hundefined)
  · exact absurd hd hf
  refine .inr ⟨hf, ?_⟩
  intro pol hmn
  rcases means_absolutePath_iff.mp hmn with hd | hd
  · exact hundefined ⟨pol, hd⟩
  · exact hf ⟨pol, hd⟩

theorem Indexed.resolves_unseparated_iff {byte : Byte} (hby : byte ≠ slash) (rel : GoString) :
    Resolves codec m g (pathSeparator ++ m.path ++ byte :: rel) ↔
      (∃ pol, m.policies.get rel = some pol ∧
          Defines codec m g (pathSeparator ++ m.path ++ byte :: rel) pol) ∨
        ¬ Defined codec m g rel ∧ ¬ Defined codec m g (pathSeparator ++ m.path ++ byte :: rel) := by
  have hnt := unseparated_ne_absolutePath (m := m) hby rel
  rw [resolves_iff_of_find hidx (getPolicy_of_beyond m byte rel), not_forall_means_iff hnt]
  simp only [means_iff_of_not_absolute hnt]

theorem Indexed.resolves_iff (hid : id ≠ []) :
    Resolves codec m g id ↔ ReadAsMeant codec m g id := by
  constructor
  · intro hrs
    by_cases hb : pathSeparator <+: id
    · by_cases hwithin : (pathSeparator ++ m.path) <+: id
      · obtain ⟨tl, rfl⟩ := hwithin
        cases tl with
        | nil =>
          obtain ⟨_, hpn⟩ := getPolicy_of_path m
          rw [Resolves, append_nil, hpn] at hrs
          simp at hrs
        | cons byte rel =>
          by_cases hby : byte = slash
          · subst hby
            rw [← absolutePath_eq] at hrs ⊢
            exact .separated rel ((hidx.resolves_separated_iff rel).mp hrs)
          · rcases (hidx.resolves_unseparated_iff hby rel).mp hrs with ⟨pol, hg, hd⟩ | ⟨hun, hin⟩
            · exact .shared byte rel pol hby hg hd
            · exact .unseparated byte rel hby hun hin
      · exact .elsewhere id hb hwithin ((resolves_elsewhere_iff hb hwithin).mp hrs)
    · exact .relative id hb
  · intro hrd
    cases hrd with
    | relative _ hrl => exact hidx.resolves_relative hid hrl
    | elsewhere _ hb hel hun =>
      exact (resolves_elsewhere_iff hb hel).mpr hun
    | separated rel hf => exact (hidx.resolves_separated_iff rel).mpr hf
    | unseparated _ rel hby hun hin =>
      exact (hidx.resolves_unseparated_iff hby rel).mpr (.inr ⟨hun, hin⟩)
    | shared _ rel pol hby hg hd =>
      exact (hidx.resolves_unseparated_iff hby rel).mpr (.inl ⟨pol, hg, hd⟩)

end Lookup

/-- For every tree that was accepted and every manager below its root, the
identifiers that `GetPolicy` resolves exactly. -/
theorem getPolicy_resolves_iff {path : GoString} {root : ConfigGroup}
    {m : ManagerImpl P} (hnew : newManagerImpl codec path root = .ok m)
    {names : List GoString} {sub : ManagerImpl P} (hsub : m.manager names = some sub) :
    ∃ group, root.subtree names = some group ∧ ∀ id, id ≠ [] →
      (Resolves codec sub group id ↔ ReadAsMeant codec sub group id) := by
  obtain ⟨group, _, hgrp, hbl⟩ := exists_group_of_manager codec hnew hsub
  obtain ⟨hsn, hcm⟩ := policies_of_newManagerImpl codec hbl
  have hidx : Indexed codec sub group := by
    refine ⟨hsn, ?_⟩
    rintro rel ⟨policy, hdef⟩
    exact hcm rel policy hdef
  refine ⟨group, hgrp, ?_⟩
  intro _ hid
  exact hidx.resolves_iff hid

/-- A provider of one type of policies, which keeps their bytes. -/
def plainCodec : PolicyCodec Bytes where
  providers := fun type => if type = 1 then some .ok else none
  order := fun _ group => group.groups.keys
  order_perm := fun _ _ => .refl _

def readersGroup : ConfigGroup :=
  ConfigGroup.literal 0 SortedMap.empty SortedMap.empty
    (SortedMap.empty.insert (ascii "Readers")
      { version := 0, policy := some { type := 1, value := [7] }
        modPolicy := ascii "Admins" })
    (ascii "Admins")

def nestedReaders : ConfigGroup :=
  ConfigGroup.literal 0 (SortedMap.empty.insert (ascii "Application") readersGroup)
    SortedMap.empty SortedMap.empty (ascii "Admins")

theorem nestedReaders_resolves :
    ∃ m sub, newManagerImpl plainCodec (ascii "Channel") nestedReaders = .ok m ∧
      m.manager [ascii "Application"] = some sub ∧
      ∃ group, nestedReaders.subtree [ascii "Application"] = some group ∧ ∀ id, id ≠ [] →
        (Resolves plainCodec sub group id ↔ ReadAsMeant plainCodec sub group id) :=
  ⟨_, _, rfl, rfl, getPolicy_resolves_iff plainCodec rfl rfl⟩

/-- The identifier `/Channel` is a panic, and `/ChannelXReaders` is taken for
`/Channel/Readers`. -/
theorem readersGroup_misread :
    ∃ m, newManagerImpl plainCodec (ascii "Channel") readersGroup = .ok m ∧
      getPolicy m (ascii "/Channel") = .error (.panic "slice bounds out of range [9:8]") ∧
      ¬ Resolves plainCodec m readersGroup (ascii "/Channel") ∧
      getPolicy m (ascii "/ChannelXReaders") =
        .ok (.policyLogger (.compiled [7]) (ascii "/Channel/Readers"), true) := by
  refine ⟨_, rfl, rfl, ?_, rfl⟩
  rintro (⟨policy, nm, -, hget⟩ | ⟨-, text, hget⟩) <;> cases hget

end FabricSequencer.PolicyManager
