import FabricSequencer.SortedMap

/-!
# Trees with named children

A node carries a label and finitely many children under distinct names.  The
names are sorted, so a tree is determined by what is found under each name.
Functions over a tree are defined by `recurse`, which computes a result for
every child first.
-/

inductive LabelledTree (K A : Type) [LinearOrder K] : Type
  | node (label : A) (names : List K) (sorted : names.Pairwise (· < ·))
      (child : { name // name ∈ names } → LabelledTree K A)

namespace LabelledTree

open SortedMap List Option

variable {K A B : Type} [LinearOrder K]

def assign {names : List K} (sorted : names.Pairwise (· < ·))
    (value : { name // name ∈ names } → B) : SortedMap K B where
  entries := names.attach.map fun name => (name.1, value name)
  sorted := by
    rw [pairwise_map]
    have hattach : (names.attach.map Subtype.val).Pairwise (· < ·) := by
      rw [List.attach_map_subtype_val]
      exact sorted
    exact pairwise_map.mp hattach

theorem get_assign {ns : List K} (sorted : ns.Pairwise (· < ·))
    (value : { nm // nm ∈ ns } → B) (nm : K) :
    (assign sorted value).get nm =
      if hnm : nm ∈ ns then some (value ⟨nm, hnm⟩) else none := by
  ext f
  rw [SortedMap.get_eq_some_iff]
  simp only [assign, List.mem_map, List.mem_attach, true_and, Subtype.exists, Prod.mk.injEq]
  split_ifs with hnm
  · constructor
    · rintro ⟨_, _, rfl, rfl⟩
      rfl
    · intro hg
      exact ⟨nm, hnm, rfl, Option.some.inj hg⟩
  · constructor
    · rintro ⟨_, ho, rfl, rfl⟩
      exact absurd ho hnm
    · intro hg
      cases hg

def label : LabelledTree K A → A
  | node label _ _ _ => label

def children : LabelledTree K A → SortedMap K (LabelledTree K A)
  | node _ _ sorted child => assign sorted child

def build (label : A) (children : SortedMap K (LabelledTree K A)) : LabelledTree K A :=
  node label children.keys children.keys_sorted fun name =>
    (children.get name.1).get (isSome_iff_exists.mpr (mem_keys_iff.mp name.2))

@[simp] theorem children_build (label : A) (children : SortedMap K (LabelledTree K A)) :
    (build label children).children = children := by
  apply SortedMap.ext_get
  intro nm
  change (assign children.keys_sorted _).get nm = _
  rw [get_assign]
  split_ifs with hname
  · simp
  · rw [mem_keys_iff, ← isSome_iff_exists, not_isSome_iff_eq_none] at hname
    exact hname.symm

theorem induction {motive : LabelledTree K A → Prop}
    (hstep : ∀ tree, (∀ nm child, tree.children.get nm = some child → motive child) → motive tree)
    (tree : LabelledTree K A) : motive tree := by
  induction tree with
  | node _ _ sorted child ih =>
    apply hstep
    intro nm f hg
    change (assign sorted child).get nm = some f at hg
    rw [get_assign] at hg
    split_ifs at hg with hnm
    cases hg
    exact ih ⟨nm, hnm⟩

def recurse (step : LabelledTree K A → SortedMap K B → B) : LabelledTree K A → B
  | node label names sorted child =>
    step (node label names sorted child) (assign sorted fun name => recurse step (child name))

theorem recurse_eq (step : LabelledTree K A → SortedMap K B → B) (tree : LabelledTree K A) :
    recurse step tree = step tree (tree.children.map (recurse step)) := by
  cases tree with
  | node _ _ sorted child =>
    rw [recurse]
    congr 1
    apply SortedMap.ext_get
    intro nm
    change _ = ((assign sorted child).map (recurse step)).get nm
    rw [SortedMap.get_map, get_assign, get_assign]
    split_ifs <;> rfl

def subtree : LabelledTree K A → List K → Option (LabelledTree K A)
  | tree, [] => some tree
  | tree, name :: path => (tree.children.get name).bind fun child => child.subtree path

variable (tree : LabelledTree K A)

@[simp] theorem subtree_nil : tree.subtree [] = some tree := by
  rw [subtree]

theorem subtree_cons (nm : K) (path : List K) :
    tree.subtree (nm :: path) = (tree.children.get nm).bind fun child => child.subtree path := by
  rw [subtree]

theorem subtree_append (first second : List K) :
    tree.subtree (first ++ second) = (tree.subtree first).bind fun inn => inn.subtree second := by
  induction first generalizing tree with
  | nil => simp
  | cons _ _ ih =>
    rw [cons_append, subtree_cons, subtree_cons, bind_assoc]
    congr 1
    funext child
    exact ih child

theorem ext_children {first second : LabelledTree K A} (hlb : first.label = second.label)
    (hch : first.children = second.children) : first = second := by
  cases first with
  | node label names sorted child =>
    cases second with
    | node otherLabel _ otherSorted otherChild =>
      change label = otherLabel at hlb
      change assign sorted child = assign otherSorted otherChild at hch
      have hky : ∀ {names : List K} (sorted : names.Pairwise (· < ·))
          (child : { nm // nm ∈ names } → LabelledTree K A),
          (assign sorted child).keys = names := by
        intro _ _ _
        simp [assign, SortedMap.keys, Function.comp_def]
      have hnm := hky sorted child
      rw [hch, hky] at hnm
      subst hlb
      subst hnm
      congr 1
      funext nm
      have hg := congrArg (fun map => map.get nm.1) hch
      simp only [get_assign, dif_pos nm.2] at hg
      exact Option.some.inj hg

def equal [DecidableEq A] : LabelledTree K A → LabelledTree K A → Bool :=
  recurse fun tree compare other =>
    decide (tree.label = other.label) && decide (tree.children.keys = other.children.keys) &&
      other.children.entries.all fun entry =>
        (compare.get entry.1).any fun compareChild => compareChild entry.2

theorem equal_iff [DecidableEq A] (first second : LabelledTree K A) :
    equal first second = true ↔ first = second := by
  induction first using induction generalizing second with
  | hstep first ih =>
    unfold equal
    rw [recurse_eq]
    simp only [Bool.and_eq_true, decide_eq_true_eq, List.all_eq_true,
      Prod.forall, SortedMap.get_map]
    constructor
    · rintro ⟨⟨hlb, hky⟩, hall⟩
      apply ext_children hlb
      apply SortedMap.ext_get
      intro nm
      rw [keys_eq_keys_iff] at hky
      cases hs : second.children.get nm with
      | none => exact (hky nm).mpr hs
      | some other =>
        have he := hall nm other (get_eq_some_iff.mp hs)
        cases hf : first.children.get nm with
        | none =>
          rw [(hky nm).mp hf] at hs
          cases hs
        | some child =>
          rw [hf] at he
          exact congrArg some ((ih nm child hf other).mp he)
    · rintro rfl
      refine ⟨⟨rfl, rfl⟩, ?_⟩
      intro nm child hm
      have hg := SortedMap.get_eq_some_iff.mpr hm
      rw [hg]
      exact (ih nm child hg child).mpr rfl

instance [DecidableEq A] : DecidableEq (LabelledTree K A) :=
  fun first second => decidable_of_iff _ (equal_iff first second)

end LabelledTree
