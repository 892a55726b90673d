import FabricSequencer.GoTypes

/-!
# Sets of principals

`Merge` combines the principal sets of two policies and `Reduce` drops the sets that contain another
one.  In a pass of `Reduce` a later superset resets the flag of a set, so that one pass may keep too
many; only a pass that drops nothing shows that no set contains another.

The sets that `Merge` returns satisfy both policies, whatever the order in which it goes through its
maps.  Not every way to satisfy them is left: the last removal from the second policy uses indices
that an earlier one has shifted.
-/

namespace FabricSequencer.Inquire

open List

structure OrganizationUnit where
  mspIdentifier : GoString
  organizationalUnitIdentifier : GoString
  certifiersIdentifier : Bytes
deriving DecidableEq

structure MSPRole where
  mspIdentifier : GoString
  role : ℤ
deriving DecidableEq

/-- What `NewComparablePrincipal` returns: the bytes of the `MSPPrincipal` with what they are
decoded to. -/
inductive ComparablePrincipal where
  | ofRole (bytes : Bytes) (role : MSPRole)
  | ofOU (bytes : Bytes) (ou : OrganizationUnit)
  | ofIdentity (bytes : Bytes) (mspID : GoString) (idBytes : Bytes)
deriving DecidableEq

namespace ComparablePrincipal

/-- Classification and bytes of the `MSPPrincipal`. -/
def principal : ComparablePrincipal → ℕ × Bytes
  | ofRole bytes _ => (0, bytes)
  | ofOU bytes _ => (1, bytes)
  | ofIdentity bytes _ _ => (2, bytes)

def ou : ComparablePrincipal → Option OrganizationUnit
  | ofOU _ ou => some ou
  | _ => none

def role : ComparablePrincipal → Option MSPRole
  | ofRole _ role => some role
  | _ => none

def mspID : ComparablePrincipal → GoString
  | ofRole _ role => role.mspIdentifier
  | ofOU _ ou => ou.mspIdentifier
  | ofIdentity _ mspID _ => mspID

def idBytes : ComparablePrincipal → Bytes
  | ofIdentity _ _ idBytes => idBytes
  | _ => []

/-- The pointers are both nil or agree in every field. -/
def equal (cp cp2 : ComparablePrincipal) : Bool :=
  cp.mspID = cp2.mspID ∧ cp.principal = cp2.principal ∧ cp.role = cp2.role ∧ cp.ou = cp2.ou

def isA (this other : ComparablePrincipal) : Bool :=
  if this.mspID ≠ other.mspID then false
  -- 0 is `MSPRole_MEMBER`
  else if other.role.any (·.role = 0) then true
  else
    match this.ou, other.ou with
    | some ou, some ou2 =>
      ou.organizationalUnitIdentifier = ou2.organizationalUnitIdentifier ∧
        ou.certifiersIdentifier = ou2.certifiersIdentifier
    | _, _ =>
      match this.role, other.role with
      | some role, some role2 => role.role = role2.role
      | _, _ => this.principal.1 = 2 ∧ this.idBytes = other.idBytes ∧ this.mspID = other.mspID

theorem isA_refl (p : ComparablePrincipal) : p.isA p := by
  cases p <;> simp [isA, ou, role, principal]

theorem isA_trans {p q r : ComparablePrincipal} (hpq : p.isA q) (hqr : q.isA r) : p.isA r := by
  cases p <;> cases q <;> cases r <;>
    simp only [isA, mspID, ou, role, principal, idBytes] at hpq hqr ⊢ <;> grind

end ComparablePrincipal

abbrev ComparablePrincipalSet := List ComparablePrincipal

abbrev ComparablePrincipalSets := List ComparablePrincipalSet

namespace ComparablePrincipalSet

def isSubset (cps sets : ComparablePrincipalSet) : Bool :=
  cps.all fun p1 => sets.any fun p2 => p1.equal p2

def isContainedIn (cps set : ComparablePrincipalSet) : Bool :=
  cps.all fun cp => set.any fun cp2 => cp2.isA cp

end ComparablePrincipalSet

/-! ## Reduction -/

/-- The inner loop's body, for the set `s1` at position `i`. -/
def compareWith (i : ℕ) (s1 : ComparablePrincipalSet) (isContaining : Bool) :
    ComparablePrincipalSet × ℕ → Bool
  | (s2, j) =>
    if i = j then isContaining
    -- of two sets that contain each other the one with the lower index stays
    else if s1.isSubset s2 ∧ i < j then false
    else isContaining || s2.isSubset s1

def isContaining (cps : ComparablePrincipalSets) (i : ℕ) (s1 : ComparablePrincipalSet) : Bool :=
  cps.zipIdx.foldl (compareWith i s1) false

def reduce (cps : ComparablePrincipalSets) : ComparablePrincipalSets :=
  (cps.zipIdx.filter fun (s1, i) => !isContaining cps i s1).map Prod.fst

theorem length_reduce_le (cps : ComparablePrincipalSets) : (reduce cps).length ≤ cps.length := by
  rw [reduce, length_map]
  exact (length_filter_le _ _).trans length_zipIdx.le

def Reduce (current : ComparablePrincipalSets) : ComparablePrincipalSets :=
  if current.length = (reduce current).length then reduce current else Reduce (reduce current)
termination_by current.length
decreasing_by
  have := length_reduce_le current
  omega

section Reduction

variable {cps : ComparablePrincipalSets} {i : ℕ} {s s1 s2 : ComparablePrincipalSet}

theorem isSubset_iff : s1.isSubset s2 ↔ ∀ p1 ∈ s1, ∃ p2 ∈ s2, p1.equal p2 := by
  simp [ComparablePrincipalSet.isSubset]

theorem isSubset_of_subset (hs : s1 ⊆ s2) : s1.isSubset s2 :=
  isSubset_iff.mpr fun p hp => ⟨p, hs hp, by simp [ComparablePrincipal.equal]⟩

theorem isSubset_refl (s : ComparablePrincipalSet) : s.isSubset s :=
  isSubset_of_subset (Subset.refl s)

theorem isSubset_trans (h12 : s.isSubset s1) (h23 : s1.isSubset s2) : s.isSubset s2 := by
  rw [isSubset_iff] at *
  intro p hp
  obtain ⟨p1, hp1, _⟩ := h12 p hp
  obtain ⟨p2, hp2, _⟩ := h23 p1 hp1
  refine ⟨p2, hp2, ?_⟩
  simp_all [ComparablePrincipal.equal]

/-- A set that ends flagged contains another set, which does not give way to it. -/
theorem exists_of_isContaining (h : isContaining cps i s1 = true) :
    ∃ k s2, cps[k]? = some s2 ∧ k ≠ i ∧ s2.isSubset s1 ∧ ¬ (s1.isSubset s2 ∧ i < k) := by
  by_contra hnone
  have hfl : isContaining cps i s1 = false := by
    refine foldlRecOn (motive := (· = false)) _ _ rfl ?_
    rintro _ rfl ⟨s2, j⟩ he
    simp only [compareWith]
    split_ifs with hij hrs
    · rfl
    · rfl
    · by_contra hs
      exact hnone ⟨j, s2, mem_zipIdx_iff_getElem?.mp he, Ne.symm hij, by simpa using hs, hrs⟩
  simp [h] at hfl

/-- Without a later superset nothing resets the flag. -/
theorem foldl_compareWith {es : List (ComparablePrincipalSet × ℕ)} {flag : Bool}
    (hl : ∀ e ∈ es, ¬ (s1.isSubset e.1 ∧ i < e.2))
    (hs : flag = true ∨ ∃ e ∈ es, e.2 ≠ i ∧ e.1.isSubset s1) :
    es.foldl (compareWith i s1) flag = true := by
  induction es generalizing flag with
  | nil => simpa using hs
  | cons _ _ ih =>
    obtain ⟨he, hrs⟩ := forall_mem_cons.mp hl
    refine ih hrs ?_
    simp only [compareWith, if_neg he]
    rcases hs with rfl | ⟨other, hm, hne, hb⟩
    · simp
    · rcases mem_cons.mp hm with rfl | hm
      · simp [hne.symm, hb]
      · exact .inr ⟨other, hm, hne, hb⟩

theorem exists_later_of_not_isContaining (h : isContaining cps i s1 = false) {k : ℕ}
    (hk : cps[k]? = some s2) (hne : k ≠ i) (hs : s2.isSubset s1) :
    ∃ j s, cps[j]? = some s ∧ s1.isSubset s ∧ i < j := by
  by_contra hnone
  have htr : isContaining cps i s1 = true :=
    foldl_compareWith (fun _ he hl => hnone ⟨_, _, mem_zipIdx_iff_getElem?.mp he, hl⟩)
      (.inr ⟨(s2, k), mem_zipIdx_iff_getElem?.mpr hk, hne, hs⟩)
  simp [h] at htr

theorem mem_reduce : s ∈ reduce cps ↔ ∃ i, cps[i]? = some s ∧ isContaining cps i s = false := by
  simp [reduce, mem_zipIdx_iff_getElem?]

theorem not_isContaining_of_length (hl : (reduce cps).length = cps.length) :
    ∀ e ∈ cps.zipIdx, !isContaining cps e.2 e.1 := by
  rw [reduce, length_map, ← length_zipIdx (l := cps) (i := 0)] at hl
  exact length_filter_eq_length_iff.mp hl

theorem reduce_eq_of_length (hl : (reduce cps).length = cps.length) : reduce cps = cps := by
  rw [reduce, filter_eq_self.mpr (not_isContaining_of_length hl)]
  exact zipIdx_map_fst 0 cps

/-- A pass that drops nothing leaves no set that contains another: the flag of such a set would have
been reset by a later set, which contains it in turn. -/
theorem not_isSubset_of_length (hl : (reduce cps).length = cps.length) {i k : ℕ}
    {s1 s2 : ComparablePrincipalSet} (hi : cps[i]? = some s1) (hk : cps[k]? = some s2)
    (hne : k ≠ i) : s2.isSubset s1 = false := by
  by_contra hsub
  have hfl := not_isContaining_of_length hl (s1, i) (mem_zipIdx_iff_getElem?.mpr hi)
  obtain ⟨_, _, hj, hs, hlt⟩ :=
    exists_later_of_not_isContaining (by simpa using hfl) hk hne (by simpa using hsub)
  have hn := not_isSubset_of_length hl hj hi hlt.ne
  simp [hs] at hn
termination_by cps.length - i
decreasing_by
  have := (List.getElem?_eq_some_iff.mp hj).1
  omega

/-- The sets below a set, for the descent to one that a pass keeps. -/
def below (cps : ComparablePrincipalSets) (s : ComparablePrincipalSet) :
    Finset ComparablePrincipalSet :=
  {t ∈ cps.toFinset | t.isSubset s}

theorem below_subset (h : s1.isSubset s2) : below cps s1 ⊆ below cps s2 :=
  Finset.monotone_filter_right _ fun _ _ ht => isSubset_trans ht h

theorem exists_mem_reduce {i : ℕ} {s : ComparablePrincipalSet} (hs : cps[i]? = some s) :
    ∃ t ∈ reduce cps, t.isSubset s := by
  cases hfl : isContaining cps i s with
  | false => exact ⟨s, mem_reduce.mpr ⟨i, hs, hfl⟩, isSubset_refl s⟩
  | true =>
    obtain ⟨k, s2, hk, hne, hb, hst⟩ := exists_of_isContaining hfl
    obtain ⟨t, ht, hle⟩ := exists_mem_reduce hk
    exact ⟨t, ht, isSubset_trans hle hb⟩
termination_by ((below cps s).card, i)
decreasing_by
  by_cases hbc : s.isSubset s2
  · rw [(below_subset hb).antisymm (below_subset hbc)]
    exact Prod.Lex.right _ (by grind)
  refine Prod.Lex.left _ _ (Finset.card_lt_card ⟨below_subset hb, fun hle => hbc ?_⟩)
  have hsl : s ∈ below cps s := by
    simp [below, mem_of_getElem? hs, isSubset_refl]
  exact (Finset.mem_filter.mp (hle hsl)).2

theorem mem_of_mem_Reduce (cps : ComparablePrincipalSets) : ∀ s ∈ Reduce cps, s ∈ cps := by
  have hps : ∀ (cps : ComparablePrincipalSets), ∀ s ∈ reduce cps, s ∈ cps := by
    intro _ _ hs
    obtain ⟨_, hi, -⟩ := mem_reduce.mp hs
    exact mem_of_getElem? hi
  fun_induction Reduce cps with
  | case1 cur => exact hps cur
  | case2 cur _ ih => exact fun s hs => hps cur s (ih s hs)

theorem exists_mem_Reduce (cps : ComparablePrincipalSets) :
    ∀ s ∈ cps, ∃ t ∈ Reduce cps, t.isSubset s := by
  fun_induction Reduce cps with
  | case1 _ hl =>
    rw [reduce_eq_of_length hl.symm]
    exact fun s hs => ⟨s, hs, isSubset_refl s⟩
  | case2 _ _ ih =>
    intro _ hs
    obtain ⟨_, hi⟩ := mem_iff_getElem?.mp hs
    obtain ⟨u, hu, hus⟩ := exists_mem_reduce hi
    obtain ⟨t, ht, htu⟩ := ih u hu
    exact ⟨t, ht, isSubset_trans htu hus⟩

theorem reduce_minimal (cps : ComparablePrincipalSets) :
    (∀ (i j : ℕ) (s1 s2 : ComparablePrincipalSet), (Reduce cps)[i]? = some s1 →
      (Reduce cps)[j]? = some s2 → i ≠ j → s1.isSubset s2 = false) ∧
    (∀ s ∈ Reduce cps, s ∈ cps) ∧ ∀ s ∈ cps, ∃ t ∈ Reduce cps, t.isSubset s := by
  refine ⟨?_, mem_of_mem_Reduce cps, exists_mem_Reduce cps⟩
  fun_induction Reduce cps with
  | case1 _ hlen =>
    rw [reduce_eq_of_length hlen.symm]
    exact fun i j s1 s2 hi hj hne => not_isSubset_of_length hlen.symm hj hi hne
  | case2 _ _ ih => exact ih

end Reduction

/-! ## Merging -/

/-- The principals for which no unused one of `available` is found. -/
def uncovered (available : ComparablePrincipalSet) : ComparablePrincipalSet → ComparablePrincipalSet
  | [] => []
  | principal :: contained =>
    if available.any (·.isA principal) then
      uncovered (available.eraseP (·.isA principal)) contained
    else principal :: uncovered available contained

structure ComparablePrincipalSetPair where
  contained : ComparablePrincipalSet
  containing : ComparablePrincipalSet

def mergeWithPlurality (pair : ComparablePrincipalSetPair) : ComparablePrincipalSet :=
  pair.containing ++ uncovered pair.containing pair.contained

/-- An index without an entry has no images. -/
abbrev IntMapping := ℕ → List ℕ

def computeContainedInMapping (s1 s2 : ComparablePrincipalSets) : IntMapping := fun i =>
  (range s2.length).filter fun j =>
    (s1[i]?).any fun ps1 => (s2[j]?).any fun ps2 => ps1.isContainedIn ps2

def invert (size : ℕ) (im : IntMapping) : IntMapping := fun j =>
  (range size).filter fun i => j ∈ im i

/-- `order` is the order in which the loop goes through the indices of the map. -/
def ofMapping (order : List ℕ) (cps : ComparablePrincipalSets) (mapping : IntMapping)
    (sets2 : ComparablePrincipalSets) : List ComparablePrincipalSetPair :=
  order.flatMap fun i => (mapping i).filterMap fun j =>
    (cps[i]?).bind fun contained => (sets2[j]?).map fun containing => ⟨contained, containing⟩

def excludeIndices (cps : ComparablePrincipalSets) (mapping : IntMapping) :
    ComparablePrincipalSets :=
  (cps.zipIdx.filter fun (_, i) => mapping i = []).map Prod.fst

def cartesianProduct (s1 s2 : ComparablePrincipalSets) : List ComparablePrincipalSetPair :=
  s1.flatMap fun x => s2.map fun y => ⟨x, y⟩

/-- `order1` and `order2` are those of the two calls of `OfMapping`. -/
def merge (order1 order2 : List ℕ) (s1 s2 : ComparablePrincipalSets) : ComparablePrincipalSets :=
  let containing2 := computeContainedInMapping s1 s2
  let rest1 := excludeIndices s1 containing2
  let containing1 := computeContainedInMapping s2 rest1
  let rest2 := excludeIndices s2 containing1
  let res := (ofMapping order1 s1 containing2 s2 ++ ofMapping order2 s2 containing1 rest1).map
    mergeWithPlurality
  let left1 := excludeIndices rest1 (invert s2.length containing1)
  -- the indices are those of `s2` before the sets of `containing1` were excluded
  let left2 := excludeIndices rest2 (invert s1.length containing2)
  if left1 = [] ∨ left2 = [] then Reduce res
  else Reduce (res ++ (cartesianProduct left1 left2).map mergeWithPlurality)

/-- `orders` gives those of each call of `Merge`. -/
def mergePrincipalSets (orders : ℕ → List ℕ × List ℕ) :
    List ComparablePrincipalSets → Except String ComparablePrincipalSets
  | [] => .error "no principal sets remained after filtering"
  | cps :: cpss => .ok (cpss.zipIdx.foldl
      (fun cps (cps2, k) => merge (orders k).1 (orders k).2 cps cps2) cps)

/-- A range over the map goes through the indices that have images, in some order. -/
def Visits (order : List ℕ) (cps : ComparablePrincipalSets) (mapping : IntMapping) : Prop :=
  order ~ (range cps.length).filter (mapping · ≠ [])

instance (order : List ℕ) (cps : ComparablePrincipalSets) (mapping : IntMapping) :
    Decidable (Visits order cps mapping) :=
  inferInstanceAs (Decidable (_ ~ _))

/-- Distinct principals of `s` that are in turn the principals of `p`. -/
def Covers (s p : ComparablePrincipalSet) : Prop :=
  ∃ images ≤ (s : Multiset ComparablePrincipal),
    Multiset.Rel (fun image principal => image.isA principal) images p

variable {s t p p1 p2 : ComparablePrincipalSet} {cps s1 s2 : ComparablePrincipalSets}
  {mapping : IntMapping} {order order1 order2 : List ℕ}

theorem Covers.of_subperm (hle : p <+~ s) : Covers s p :=
  ⟨p, Multiset.coe_le.mpr hle, Multiset.rel_refl_of_refl_on fun cp _ => cp.isA_refl⟩

theorem Covers.cons {image principal : ComparablePrincipal}
    (hs : image.isA principal) (hc : Covers s p) : Covers (image :: s) (principal :: p) := by
  obtain ⟨images, hle, hr⟩ := hc
  refine ⟨image ::ₘ images, Multiset.cons_le_cons _ hle, ?_⟩
  rw [← Multiset.cons_coe]
  exact .cons hs hr

theorem Covers.trans (hst : Covers s t) (htp : Covers t p) : Covers s p := by
  obtain ⟨_, hle, hr⟩ := hst
  obtain ⟨_, hm, hr'⟩ := htp
  obtain ⟨_, hos⟩ := Multiset.le_iff_exists_add.mp hm
  rw [hos, Multiset.rel_add_right] at hr
  obtain ⟨first, _, hf, -, rfl⟩ := hr
  have : IsTrans ComparablePrincipal fun image principal => image.isA principal :=
    ⟨fun _ _ _ => ComparablePrincipal.isA_trans⟩
  exact ⟨first, (Multiset.le_add_right _ _).trans hle, hf.trans _ hr'⟩

theorem uncovered_covers (available contained : ComparablePrincipalSet) :
    Covers (available ++ uncovered available contained) contained := by
  induction contained generalizing available with
  | nil => exact .of_subperm nil_subperm
  | cons principal _ ih =>
    rw [uncovered]
    split_ifs with hany
    · obtain ⟨_, hg, hs⟩ := any_eq_true.mp hany
      obtain ⟨_, pre, post, -, him, hsp, hee⟩ := exists_of_eraseP (p := (·.isA principal)) hg hs
      rw [hee, hsp]
      exact Covers.trans (.of_subperm (perm_middle.symm.append_right _).subperm)
        ((ih (pre ++ post)).cons him)
    · exact Covers.trans (.of_subperm perm_middle.symm.subperm) ((ih available).cons principal.isA_refl)

theorem mergeWithPlurality_covers (pair : ComparablePrincipalSetPair) :
    Covers (mergeWithPlurality pair) pair.contained ∧
      Covers (mergeWithPlurality pair) pair.containing :=
  ⟨uncovered_covers _ _, .of_subperm (sublist_append_left _ _).subperm⟩

theorem mem_of_mem_excludeIndices (hs : s ∈ excludeIndices cps mapping) : s ∈ cps := by
  obtain ⟨_, he, rfl⟩ := mem_map.mp hs
  exact fst_mem_of_mem_zipIdx (mem_of_mem_filter he)

theorem mem_ofMapping {pair : ComparablePrincipalSetPair} :
    pair ∈ ofMapping order s1 mapping s2 ↔ ∃ i ∈ order, ∃ j ∈ mapping i,
      s1[i]? = some pair.contained ∧ s2[j]? = some pair.containing := by
  simp only [ofMapping, mem_flatMap, mem_filterMap, Option.bind_eq_some_iff, Option.map_eq_some_iff]
  constructor
  · rintro ⟨i, hi, j, hj, contained, hcontained, containing, hcontaining, rfl⟩
    exact ⟨i, hi, j, hj, hcontained, hcontaining⟩
  · rintro ⟨i, hi, j, hj, hcontained, hcontaining⟩
    exact ⟨i, hi, j, hj, _, hcontained, _, hcontaining, rfl⟩

/-- The sets of `s1` that no set of `s2` contains. -/
def remaining (s1 s2 : ComparablePrincipalSets) : ComparablePrincipalSets :=
  excludeIndices s1 (computeContainedInMapping s1 s2)

/-- The sets of `s1` and of `s2` that are left for the product. -/
def left1 (s1 s2 : ComparablePrincipalSets) : ComparablePrincipalSets :=
  excludeIndices (remaining s1 s2)
    (invert s2.length (computeContainedInMapping s2 (remaining s1 s2)))

def left2 (s1 s2 : ComparablePrincipalSets) : ComparablePrincipalSets :=
  excludeIndices (excludeIndices s2 (computeContainedInMapping s2 (remaining s1 s2)))
    (invert s1.length (computeContainedInMapping s1 s2))

def mergedPairs (order1 order2 : List ℕ) (s1 s2 : ComparablePrincipalSets) :
    List ComparablePrincipalSetPair :=
  ofMapping order1 s1 (computeContainedInMapping s1 s2) s2 ++
    ofMapping order2 s2 (computeContainedInMapping s2 (remaining s1 s2)) (remaining s1 s2) ++
    cartesianProduct (left1 s1 s2) (left2 s1 s2)

theorem merge_eq (order1 order2 : List ℕ) (s1 s2 : ComparablePrincipalSets) :
    merge order1 order2 s1 s2 =
      Reduce ((mergedPairs order1 order2 s1 s2).map mergeWithPlurality) := by
  have hproduct : left1 s1 s2 = [] ∨ left2 s1 s2 = [] →
      cartesianProduct (left1 s1 s2) (left2 s1 s2) = [] := by
    rintro (hnil | hnil) <;> simp [cartesianProduct, hnil]
  rw [mergedPairs, map_append]
  simp only [merge]
  split_ifs with hnil
  · rw [hproduct hnil]
    exact congrArg Reduce (append_nil _).symm
  · rfl

/-- A set of each side, in one of the two orders. -/
def Combines (s1 s2 : ComparablePrincipalSets) (pair : ComparablePrincipalSetPair) : Prop :=
  pair.contained ∈ s1 ∧ pair.containing ∈ s2 ∨ pair.contained ∈ s2 ∧ pair.containing ∈ s1

theorem combines_of_mem {pair : ComparablePrincipalSetPair}
    (hpair : pair ∈ mergedPairs order1 order2 s1 s2) : Combines s1 s2 pair := by
  simp only [mergedPairs, mem_append, mem_ofMapping, cartesianProduct, mem_flatMap, mem_map] at hpair
  rcases hpair with (⟨i, -, j, -, h1, h2⟩ | ⟨i, -, j, -, h2, h1⟩) | ⟨a, ha, b, hb, rfl⟩
  · exact .inl ⟨mem_of_getElem? h1, mem_of_getElem? h2⟩
  · exact .inr ⟨mem_of_getElem? h2, mem_of_mem_excludeIndices (mem_of_getElem? h1)⟩
  · exact .inl ⟨mem_of_mem_excludeIndices (mem_of_mem_excludeIndices ha),
      mem_of_mem_excludeIndices (mem_of_mem_excludeIndices hb)⟩

theorem mem_merge (hs : s ∈ merge order1 order2 s1 s2) :
    ∃ pair, Combines s1 s2 pair ∧ mergeWithPlurality pair = s := by
  rw [merge_eq] at hs
  obtain ⟨pair, hpair, hmerged⟩ := mem_map.mp (mem_of_mem_Reduce _ _ hs)
  exact ⟨pair, combines_of_mem hpair, hmerged⟩

theorem merge_covers (hs : s ∈ merge order1 order2 s1 s2) :
    ∃ a ∈ s1, ∃ b ∈ s2, Covers s a ∧ Covers s b := by
  obtain ⟨pair, hsides, rfl⟩ := mem_merge hs
  have hcovers := mergeWithPlurality_covers pair
  rcases hsides with ⟨h1, h2⟩ | ⟨h2, h1⟩
  · exact ⟨_, h1, _, h2, hcovers⟩
  · exact ⟨_, h1, _, h2, hcovers.symm⟩

theorem foldl_merge_covers {orders : ℕ → List ℕ × List ℕ}
    {cpss : List (ComparablePrincipalSets × ℕ)}
    (hs : s ∈ cpss.foldl (fun cps (cps2, k) => merge (orders k).1 (orders k).2 cps cps2) cps) :
    ∀ policy ∈ cps :: cpss.map Prod.fst, ∃ p ∈ policy, Covers s p := by
  induction cpss generalizing cps with
  | nil =>
    intro _ hpolicy
    rw [mem_singleton.mp hpolicy]
    exact ⟨s, hs, .of_subperm (Subperm.refl s)⟩
  | cons _ _ ih =>
    obtain ⟨⟨_, ht, hst⟩, hrest⟩ := forall_mem_cons.mp (ih hs)
    obtain ⟨a, ha, b, hb, hta, htb⟩ := merge_covers ht
    rw [map_cons, forall_mem_cons, forall_mem_cons]
    exact ⟨⟨a, ha, hst.trans hta⟩, ⟨b, hb, hst.trans htb⟩, hrest⟩

theorem mergePrincipalSets_covers {orders : ℕ → List ℕ × List ℕ}
    {cpss : List ComparablePrincipalSets} {result : ComparablePrincipalSets}
    (hmerge : mergePrincipalSets orders cpss = .ok result) :
    ∀ s ∈ result, ∀ policy ∈ cpss, ∃ p ∈ policy, Covers s p := by
  intro _ hs
  cases cpss with
  | nil => cases hmerge
  | cons cps cpss =>
    cases hmerge
    have hcovers := foldl_merge_covers hs
    rwa [zipIdx_map_fst] at hcovers

def member (org : Byte) : ComparablePrincipal := .ofRole [org, 0] ⟨[org], 0⟩

def peer (org : Byte) : ComparablePrincipal := .ofRole [org, 3] ⟨[org], 3⟩

theorem Reduce_of_length (hlength : (reduce cps).length = cps.length) : Reduce cps = cps := by
  rw [Reduce, if_pos hlength.symm, reduce_eq_of_length hlength]

theorem Reduce_of_ne (hlength : cps.length ≠ (reduce cps).length) :
    Reduce cps = Reduce (reduce cps) := by
  rw [Reduce, if_neg hlength]

/-- One or two members of the first organization, and one of each. -/
def memberPolicies : List ComparablePrincipalSets :=
  [[[member 1], [member 1, member 1]], [[member 1, member 2]]]

/-- Of the two combined sets the one that comes first is kept, which the order decides. -/
theorem mergePrincipalSets_covers_orders :
    mergePrincipalSets (fun _ => ([0, 1], [])) memberPolicies = .ok [[member 1, member 2]] ∧
      mergePrincipalSets (fun _ => ([1, 0], [])) memberPolicies =
        .ok [[member 1, member 2, member 1]] ∧
      (∀ s ∈ [[member 1, member 2]], ∀ policy ∈ memberPolicies, ∃ p ∈ policy, Covers s p) ∧
      ∀ s ∈ [[member 1, member 2, member 1]], ∀ policy ∈ memberPolicies,
        ∃ p ∈ policy, Covers s p := by
  have hfirst : mergePrincipalSets (fun _ => ([0, 1], [])) memberPolicies =
      .ok [[member 1, member 2]] := by
    change Except.ok (Reduce [[member 1, member 2], [member 1, member 2, member 1]]) = _
    rw [Reduce_of_ne (by decide)]
    exact congrArg _ (Reduce_of_length (by decide))
  have hsecond : mergePrincipalSets (fun _ => ([1, 0], [])) memberPolicies =
      .ok [[member 1, member 2, member 1]] := by
    change Except.ok (Reduce [[member 1, member 2, member 1], [member 1, member 2]]) = _
    rw [Reduce_of_ne (by decide)]
    exact congrArg _ (Reduce_of_length (by decide))
  exact ⟨hfirst, hsecond, mergePrincipalSets_covers hfirst, mergePrincipalSets_covers hsecond⟩

/-! ## The options that are kept -/

theorem uncovered_sublist (available contained : ComparablePrincipalSet) :
    uncovered available contained <+ contained := by
  induction contained generalizing available with
  | nil => exact Sublist.refl _
  | cons principal _ ih =>
    rw [uncovered]
    split_ifs
    · exact (ih _).cons principal
    · exact (ih _).cons_cons principal

theorem mergeWithPlurality_subperm (pair : ComparablePrincipalSetPair) :
    mergeWithPlurality pair <+~ pair.containing ++ pair.contained :=
  ((uncovered_sublist _ _).append_left _).subperm

theorem mem_computeContainedInMapping {i j : ℕ} :
    j ∈ computeContainedInMapping s1 s2 i ↔
      ∃ a, s1[i]? = some a ∧ ∃ b, s2[j]? = some b ∧ a.isContainedIn b := by
  simp only [computeContainedInMapping, mem_filter, mem_range, Option.any_eq_true]
  grind

theorem mem_excludeIndices {i : ℕ} (hi : cps[i]? = some s) (hnone : mapping i = []) :
    s ∈ excludeIndices cps mapping := by
  refine mem_map.mpr ⟨(s, i), mem_filter.mpr ⟨mem_zipIdx_iff_getElem?.mpr hi, ?_⟩, rfl⟩
  simpa using hnone

theorem excludeIndices_of_nil (hnone : ∀ i, mapping i = []) : excludeIndices cps mapping = cps := by
  simp [excludeIndices, hnone, zipIdx_map_fst]

theorem computeContainedInMapping_eq_nil {i : ℕ}
    (hnone : ∀ a, s1[i]? = some a → ∀ b ∈ s2, a.isContainedIn b = false) :
    computeContainedInMapping s1 s2 i = [] := by
  rw [eq_nil_iff_forall_not_mem]
  intro j hj
  obtain ⟨a, ha, b, hb, hab⟩ := mem_computeContainedInMapping.mp hj
  rw [hnone a ha b (mem_of_getElem? hb)] at hab
  cases hab

theorem invert_eq_nil {size j : ℕ} (hnone : ∀ i, j ∉ mapping i) : invert size mapping j = [] := by
  simp [invert, hnone]

theorem mem_of_visits (hvisits : Visits order cps mapping) {i j : ℕ} (hi : cps[i]? = some s)
    (hj : j ∈ mapping i) : i ∈ order := by
  have hlt : i < cps.length := (List.getElem?_eq_some_iff.mp hi).1
  refine hvisits.mem_iff.mpr (mem_filter.mpr ⟨mem_range.mpr hlt, ?_⟩)
  simpa using ne_nil_of_mem hj

theorem mem_remaining (hp1 : p1 ∈ s1) (hnone : ∀ b ∈ s2, p1.isContainedIn b = false) :
    p1 ∈ remaining s1 s2 := by
  obtain ⟨i, hi⟩ := mem_iff_getElem?.mp hp1
  refine mem_excludeIndices hi (computeContainedInMapping_eq_nil ?_)
  intro a ha
  rw [hi] at ha
  cases ha
  exact hnone

/-- `Merge` treats the two sets as its comments say: the second contains the first, the first is
contained in no set and contains the second, or neither has anything to do with the sets of the
other side.  In the last case no set may have been removed from `s2`, or none from `s1`: only then
do the indices of the last removal fit. -/
inductive IsCombined (s1 s2 : ComparablePrincipalSets) (p1 p2 : ComparablePrincipalSet) : Prop
  | contained (hcontained : p1.isContainedIn p2)
  | containing (hremains : ∀ b ∈ s2, p1.isContainedIn b = false)
      (hcontained : p2.isContainedIn p1)
  | apart (hapart1 : ∀ b ∈ s2, p1.isContainedIn b = false ∧ b.isContainedIn p1 = false)
      (hapart2 : ∀ a ∈ s1, a.isContainedIn p2 = false ∧ p2.isContainedIn a = false)
      (hindices : (∀ a ∈ s1, ∀ b ∈ s2, a.isContainedIn b = false) ∨
        ∀ b ∈ s2, ∀ a ∈ remaining s1 s2, b.isContainedIn a = false)

/-- Where `Reduce` takes a combined set for a superset of another one, it has the principals of that
set in their number. -/
def CountsPrincipals (s1 s2 : ComparablePrincipalSets) : Prop :=
  ∀ pair pair', Combines s1 s2 pair → Combines s1 s2 pair' →
    (mergeWithPlurality pair).isSubset (mergeWithPlurality pair') →
      Covers (mergeWithPlurality pair') (mergeWithPlurality pair)

theorem mem_left1 (hp1 : p1 ∈ s1)
    (hapart : ∀ b ∈ s2, p1.isContainedIn b = false ∧ b.isContainedIn p1 = false) :
    p1 ∈ left1 s1 s2 := by
  obtain ⟨i, hi⟩ := mem_iff_getElem?.mp (mem_remaining hp1 fun b hb => (hapart b hb).1)
  refine mem_excludeIndices hi (invert_eq_nil ?_)
  intro k hk
  obtain ⟨b, hb, a, ha, hba⟩ := mem_computeContainedInMapping.mp hk
  cases hi.symm.trans ha
  rw [(hapart b (mem_of_getElem? hb)).2] at hba
  cases hba

/-- The index of a set in `s2` is still its index when the sets that contain one of `s1` are
removed, or there are no such sets. -/
theorem mem_left2 (hp2 : p2 ∈ s2)
    (hapart : ∀ a ∈ s1, a.isContainedIn p2 = false ∧ p2.isContainedIn a = false)
    (hindices : (∀ a ∈ s1, ∀ b ∈ s2, a.isContainedIn b = false) ∨
      ∀ b ∈ s2, ∀ a ∈ remaining s1 s2, b.isContainedIn a = false) : p2 ∈ left2 s1 s2 := by
  obtain ⟨j, hj⟩ := mem_iff_getElem?.mp hp2
  unfold left2
  rcases hindices with hnone | hnone
  · have hempty : ∀ i, computeContainedInMapping s1 s2 i = [] := fun i =>
      computeContainedInMapping_eq_nil fun a ha => hnone a (mem_of_getElem? ha)
    rw [excludeIndices_of_nil fun k => invert_eq_nil fun i => by simp [hempty i]]
    refine mem_excludeIndices hj (computeContainedInMapping_eq_nil fun b hb a ha => ?_)
    cases hj.symm.trans hb
    exact (hapart a (mem_of_mem_excludeIndices ha)).2
  · rw [excludeIndices_of_nil fun k =>
      computeContainedInMapping_eq_nil fun b hb => hnone b (mem_of_getElem? hb)]
    refine mem_excludeIndices hj (invert_eq_nil ?_)
    intro i hi
    obtain ⟨a, ha, b, hb, hab⟩ := mem_computeContainedInMapping.mp hi
    cases hj.symm.trans hb
    rw [(hapart a (mem_of_getElem? ha)).1] at hab
    cases hab

theorem exists_mem_mergedPairs (hvisits1 : Visits order1 s1 (computeContainedInMapping s1 s2))
    (hvisits2 : Visits order2 s2 (computeContainedInMapping s2 (remaining s1 s2)))
    (hp1 : p1 ∈ s1) (hp2 : p2 ∈ s2) (hcombined : IsCombined s1 s2 p1 p2) :
    ⟨p1, p2⟩ ∈ mergedPairs order1 order2 s1 s2 ∨ ⟨p2, p1⟩ ∈ mergedPairs order1 order2 s1 s2 := by
  unfold mergedPairs
  obtain ⟨j, hj⟩ := mem_iff_getElem?.mp hp2
  cases hcombined with
  | contained hcontained =>
    obtain ⟨i, hi⟩ := mem_iff_getElem?.mp hp1
    have himage : j ∈ computeContainedInMapping s1 s2 i :=
      mem_computeContainedInMapping.mpr ⟨p1, hi, p2, hj, hcontained⟩
    refine .inl (mem_append_left _ (mem_append_left _ (mem_ofMapping.mpr ?_)))
    exact ⟨i, mem_of_visits hvisits1 hi himage, j, himage, hi, hj⟩
  | containing hremains hcontained =>
    obtain ⟨i, hi⟩ := mem_iff_getElem?.mp (mem_remaining hp1 hremains)
    have himage : i ∈ computeContainedInMapping s2 (remaining s1 s2) j :=
      mem_computeContainedInMapping.mpr ⟨p2, hj, p1, hi, hcontained⟩
    refine .inr (mem_append_left _ (mem_append_right _ (mem_ofMapping.mpr ?_)))
    exact ⟨j, mem_of_visits hvisits2 hj himage, i, himage, hj, hi⟩
  | apart hapart1 hapart2 hindices =>
    refine .inl (mem_append_right _ (mem_flatMap.mpr ?_))
    exact ⟨p1, mem_left1 hp1 hapart1, mem_map.mpr ⟨p2, mem_left2 hp2 hapart2 hindices, rfl⟩⟩

theorem Covers.exists_isA (hcovers : Covers s p) :
    ∀ principal ∈ p, ∃ image ∈ s, image.isA principal := by
  obtain ⟨images, hle, hrel⟩ := hcovers
  intro principal hprincipal
  obtain ⟨image, himage, hisA⟩ := Multiset.exists_mem_of_rel_of_mem (Multiset.rel_flip.mpr hrel) hprincipal
  exact ⟨image, Multiset.mem_of_le hle himage, hisA⟩

def firstPolicy : ComparablePrincipalSets := [[member 1], [peer 2], [member 4]]

def secondPolicy : ComparablePrincipalSets := [[member 2], [peer 1], [member 3]]

end FabricSequencer.Inquire
