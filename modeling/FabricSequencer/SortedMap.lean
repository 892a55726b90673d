import Mathlib.Data.List.Sort
import Mathlib.Order.Basic
import Mathlib.Tactic

/-!
# Finite maps as sorted association lists

A map is the list of its entries in strictly ascending order of the keys.  Two
maps are equal when their lookups are, so every operation is described by what
a lookup in its result returns.  `overlay` applies a map of changes to a base
map, and `overlayEntries` computes the same entries by walking both lists side
by side.
-/

structure SortedMap (K V : Type) [LinearOrder K] where
  entries : List (K × V)
  sorted : entries.Pairwise fun a b => a.1 < b.1

namespace SortedMap

open List Option

variable {K V W : Type} [LinearOrder K] {first second : SortedMap K V}

theorem ext_entries (he : first.entries = second.entries) : first = second := by
  cases first
  cases second
  simp only at he
  subst he
  rfl

instance [DecidableEq V] : DecidableEq (SortedMap K V) := fun first second =>
  decidable_of_iff (first.entries = second.entries)
    ⟨ext_entries, fun hsame => congrArg entries hsame⟩

def empty : SortedMap K V where
  entries := []
  sorted := List.Pairwise.nil

def get (map : SortedMap K V) (key : K) : Option V := map.entries.lookup key

variable {es : List (K × V)} {e : K × V}

theorem lookup_cons_eq (key : K) :
    (e :: es).lookup key =
      if key = e.1 then some e.2 else es.lookup key := by
  obtain ⟨other, _⟩ := e
  rw [lookup_cons]
  by_cases hk : key = other
  · simp [hk]
  · simp [hk, beq_eq_false_iff_ne.mpr hk]

variable {key : K} {v : V}

theorem lookup_eq_some_iff (hsr : es.Pairwise fun a b => a.1 < b.1) :
    es.lookup key = some v ↔ (key, v) ∈ es := by
  induction es with
  | nil => simp
  | cons e es ih =>
    obtain ⟨other, _⟩ := e
    rw [pairwise_cons] at hsr
    rw [lookup_cons_eq]
    by_cases hk : key = other
    · subst other
      have hfr : (key, v) ∉ es := fun hm =>
        lt_irrefl key (hsr.1 _ hm)
      simp [hfr, eq_comm]
    · simp [hk, ih hsr.2]

theorem lookup_eq_none_of_lt (hle : ∀ e ∈ es, key < e.1) : es.lookup key = none := by
  rw [lookup_eq_none_iff]
  intro e hm
  simpa using (hle e hm).ne

theorem get_eq_some_iff {map : SortedMap K V} : map.get key = some v ↔ (key, v) ∈ map.entries :=
  lookup_eq_some_iff map.sorted

theorem get_eq_none_iff {map : SortedMap K V} :
    map.get key = none ↔ ∀ v, (key, v) ∉ map.entries := by
  constructor
  · intro hno _ hm
    rw [get_eq_some_iff.mpr hm] at hno
    cases hno
  · intro hb
    cases hg : map.get key with
    | none => rfl
    | some v => exact absurd (get_eq_some_iff.mp hg) (hb v)

theorem entries_eq_of_mem_iff {first second : List (K × V)}
    (hf : first.Pairwise fun a b => a.1 < b.1) (hs : second.Pairwise fun a b => a.1 < b.1)
    (hm : ∀ e, e ∈ first ↔ e ∈ second) : first = second := by
  have hnd : ∀ {es : List (K × V)}, es.Pairwise (fun a b => a.1 < b.1) → es.Nodup := by
    intro _ hsr
    exact hsr.imp fun hlt heq => by
      subst heq
      exact lt_irrefl _ hlt
  have hpr := (perm_ext_iff_of_nodup (hnd hf) (hnd hs)).mpr hm
  exact hpr.eq_of_pairwise (fun a b _ _ hab hba => absurd hab (lt_asymm hba)) hf hs

theorem ext_get (hg : ∀ key, first.get key = second.get key) : first = second := by
  apply ext_entries
  apply entries_eq_of_mem_iff first.sorted second.sorted
  rintro ⟨_, _⟩
  rw [← get_eq_some_iff, ← get_eq_some_iff, hg]

@[simp] theorem get_empty (key : K) : (empty : SortedMap K V).get key = none := rfl

/-! ## Insertion and removal -/

def insertEntry (key : K) (value : V) : List (K × V) → List (K × V)
  | [] => [(key, value)]
  | entry :: entries =>
    if key < entry.1 then (key, value) :: entry :: entries
    else if key = entry.1 then (key, value) :: entries
    else entry :: insertEntry key value entries

theorem mem_insertEntry (hsr : es.Pairwise fun a b => a.1 < b.1) :
    e ∈ insertEntry key v es ↔ e = (key, v) ∨ (e ∈ es ∧ e.1 ≠ key) := by
  induction es with
  | nil => simp [insertEntry]
  | cons head es ih =>
    rw [pairwise_cons] at hsr
    simp only [insertEntry]
    split_ifs with hless heq
    · have ho : e ∈ head :: es → e.1 ≠ key := by
        rintro hm rfl
        rcases mem_cons.mp hm with rfl | hlat
        · exact lt_irrefl _ hless
        · exact lt_asymm hless (hsr.1 _ hlat)
      rw [mem_cons]
      tauto
    · subst key
      have ho : e ∈ es → e.1 ≠ head.1 := fun hm =>
        (hsr.1 _ hm).ne'
      simp only [mem_cons]
      constructor
      · rintro (hn | hm)
        · exact .inl hn
        · exact .inr ⟨.inr hm, ho hm⟩
      · rintro (hn | ⟨rfl | hm, hne⟩)
        · exact .inl hn
        · exact absurd rfl hne
        · exact .inr hm
    · rw [mem_cons, mem_cons, ih hsr.2]
      constructor
      · rintro (rfl | hn | ⟨hm, hne⟩)
        · exact .inr ⟨.inl rfl, fun hk => heq hk.symm⟩
        · exact .inl hn
        · exact .inr ⟨.inr hm, hne⟩
      · rintro (hn | ⟨rfl | hm, hne⟩)
        · exact .inr (.inl hn)
        · exact .inl rfl
        · exact .inr (.inr ⟨hm, hne⟩)

theorem insertEntry_sorted (hsr : es.Pairwise fun a b => a.1 < b.1) :
    (insertEntry key v es).Pairwise fun a b => a.1 < b.1 := by
  induction es with
  | nil => simp [insertEntry]
  | cons _ _ ih =>
    have htl := (pairwise_cons.mp hsr).2
    have hhd := (pairwise_cons.mp hsr).1
    simp only [insertEntry]
    split_ifs with hless heq
    · refine pairwise_cons.mpr ⟨?_, hsr⟩
      intro _ hm
      rcases mem_cons.mp hm with rfl | hl
      · exact hless
      · exact hless.trans (hhd _ hl)
    · subst key
      exact pairwise_cons.mpr ⟨hhd, htl⟩
    · refine pairwise_cons.mpr ⟨?_, ih htl⟩
      intro _ hm
      rcases (mem_insertEntry htl).mp hm with rfl | ⟨hl, -⟩
      · exact lt_of_le_of_ne (not_lt.mp hless) (Ne.symm heq)
      · exact hhd _ hl

section

variable (map : SortedMap K V)

def insert (key : K) (value : V) : SortedMap K V where
  entries := insertEntry key value map.entries
  sorted := insertEntry_sorted map.sorted

theorem get_insert (key : K) (v : V) (other : K) :
    (map.insert key v).get other =
      if other = key then some v else map.get other := by
  ext f
  rw [get_eq_some_iff]
  simp only [insert, mem_insertEntry map.sorted, Prod.mk.injEq]
  split_ifs with hkey
  · simp [hkey, eq_comm]
  · simp [hkey, get_eq_some_iff]

@[simp] theorem get_insert_self (key : K) (v : V) : (map.insert key v).get key = some v := by
  simp [get_insert]

theorem get_insert_of_ne {key other : K} (v : V) (ho : other ≠ key) :
    (map.insert key v).get other = map.get other := by
  simp [get_insert, ho]

end

def restrict (keep : K → Bool) (map : SortedMap K V) : SortedMap K V where
  entries := map.entries.filter fun entry => keep entry.1
  sorted := map.sorted.filter _

theorem get_restrict (keep : K → Bool) (map : SortedMap K V) (key : K) :
    (map.restrict keep).get key = if keep key then map.get key else none := by
  ext v
  rw [get_eq_some_iff]
  simp only [restrict, mem_filter]
  split_ifs with hkeep
  · simp [hkeep, get_eq_some_iff]
  · simp [hkeep]

theorem entries_restrict_lt {keep cut : K → Bool} {map : SortedMap K V}
    {before post : List (K × V)} (he : (map.restrict keep).entries = before ++ e :: post)
    (hc : ∀ key, cut key = true ↔ keep key = true ∧ key < e.1) :
    (map.restrict cut).entries = before := by
  have hsr := (map.restrict keep).sorted
  rw [he, pairwise_append, pairwise_cons] at hsr
  have hf : (map.restrict cut).entries =
      (map.restrict keep).entries.filter fun other => other.1 < e.1 := by
    simp only [restrict, List.filter_filter]
    apply List.filter_congr
    intro _ _
    rw [Bool.eq_iff_iff, hc]
    simp [and_comm]
  rw [hf, he, filter_append, filter_eq_self.mpr, filter_eq_nil_iff.mpr, append_nil]
  · intro other hm
    rcases mem_cons.mp hm with rfl | hlat
    · simp
    · simpa using (hsr.2.1.1 other hlat).le
  · intro other hm
    simpa using hsr.2.2 other hm e mem_cons_self

def erase (map : SortedMap K V) (key : K) : SortedMap K V := map.restrict fun other => other ≠ key

theorem get_erase (map : SortedMap K V) (key other : K) :
    (map.erase key).get other =
      if other = key then none else map.get other := by
  rw [erase, get_restrict]
  by_cases hk : other = key <;> simp [hk]

def mapFilter (rewrite : K → V → Option W) (map : SortedMap K V) : SortedMap K W where
  entries := map.entries.filterMap fun entry =>
    (rewrite entry.1 entry.2).map fun value => (entry.1, value)
  sorted := by
    apply map.sorted.filterMap
    intro first second hless first' hfirst second' hsecond
    simp only [map_eq_some_iff] at hfirst hsecond
    obtain ⟨value, -, rfl⟩ := hfirst
    obtain ⟨other, -, rfl⟩ := hsecond
    exact hless

theorem get_mapFilter (rewrite : K → V → Option W) (map : SortedMap K V) (key : K) :
    (map.mapFilter rewrite).get key = (map.get key).bind (rewrite key) := by
  ext v
  rw [get_eq_some_iff, bind_eq_some_iff]
  simp only [mapFilter, mem_filterMap, map_eq_some_iff, Prod.mk.injEq, Prod.exists]
  constructor
  · rintro ⟨_, old, hm, _, hn, rfl, rfl⟩
    exact ⟨old, get_eq_some_iff.mpr hm, hn⟩
  · rintro ⟨old, hl, hn⟩
    exact ⟨key, old, get_eq_some_iff.mp hl, v, hn, rfl, rfl⟩

def keys (map : SortedMap K V) : List K := map.entries.map Prod.fst

theorem mem_keys_iff {map : SortedMap K V} : key ∈ map.keys ↔ ∃ v, map.get key = some v := by
  simp [keys, get_eq_some_iff]

theorem keys_sorted (map : SortedMap K V) : map.keys.Pairwise (· < ·) :=
  map.sorted.map Prod.fst fun _ _ hle => hle

theorem keys_eq_keys_iff {first : SortedMap K V} {second : SortedMap K W} :
    first.keys = second.keys ↔ ∀ key, first.get key = none ↔ second.get key = none := by
  have hm : (∀ key, key ∈ first.keys ↔ key ∈ second.keys) ↔
      ∀ key, first.get key = none ↔ second.get key = none := by
    apply forall_congr'
    intro key
    rw [mem_keys_iff, mem_keys_iff]
    cases first.get key <;> cases second.get key <;> simp
  rw [← hm]
  constructor
  · intro hky _
    rw [hky]
  intro hky
  have hpr := (perm_ext_iff_of_nodup
    (first.keys_sorted.imp ne_of_lt) (second.keys_sorted.imp ne_of_lt)).mpr
    hky
  exact hpr.eq_of_pairwise (fun a b _ _ hab hba => absurd hab (lt_asymm hba))
    first.keys_sorted second.keys_sorted

def map (rewrite : V → W) (source : SortedMap K V) : SortedMap K W where
  entries := source.entries.map fun entry => (entry.1, rewrite entry.2)
  sorted := source.sorted.map _ fun _ _ hless => hless

@[simp] theorem get_map (rewrite : V → W) (source : SortedMap K V) (key : K) :
    (source.map rewrite).get key = (source.get key).map rewrite := by
  ext v
  rw [get_eq_some_iff, Option.map_eq_some_iff]
  simp only [map, List.mem_map, Prod.mk.injEq, Prod.exists]
  constructor
  · rintro ⟨_, old, hm, rfl, rfl⟩
    exact ⟨old, get_eq_some_iff.mpr hm, rfl⟩
  · rintro ⟨old, hl, rfl⟩
    exact ⟨key, old, get_eq_some_iff.mp hl, rfl, rfl⟩

def fill {E : Type} (compute : K → V → Except E W) :
    List (K × V) → SortedMap K W → Except E (SortedMap K W)
  | [], filled => .ok filled
  | entry :: entries, filled =>
    match compute entry.1 entry.2 with
    | .error cause => .error cause
    | .ok value => fill compute entries (filled.insert entry.1 value)

def traverse {E : Type} (compute : K → V → Except E W)
    (source : SortedMap K V) : Except E (SortedMap K W) :=
  fill compute source.entries empty

variable {E : Type} {compute : K → V → Except E W}

theorem get_fill (hsr : es.Pairwise fun a b => a.1 < b.1)
    {filled r : SortedMap K W} (hfl : fill compute es filled = .ok r) (key : K) :
    match es.lookup key with
    | none => r.get key = filled.get key
    | some v => ∃ new, compute key v = .ok new ∧ r.get key = some new := by
  induction es generalizing filled with
  | nil =>
    cases hfl
    rfl
  | cons e _ ih =>
    obtain ⟨other, v⟩ := e
    rw [pairwise_cons] at hsr
    rw [fill] at hfl
    cases hcm : compute other v with
    | error => simp [hcm] at hfl
    | ok new =>
      simp only [hcm] at hfl
      have hrs := ih hsr.2 hfl
      rw [lookup_cons_eq]
      by_cases hk : key = other
      · subst hk
        rw [lookup_eq_none_of_lt hsr.1] at hrs
        rw [if_pos rfl]
        exact ⟨new, hcm, hrs.trans (get_insert_self _ _ _)⟩
      · rw [get_insert_of_ne _ _ hk] at hrs
        rwa [if_neg hk]

theorem exists_fill (ha : ∀ e ∈ es, ∃ new, compute e.1 e.2 = .ok new) (filled : SortedMap K W) :
    ∃ result, fill compute es filled = .ok result := by
  induction es generalizing filled with
  | nil => exact ⟨filled, rfl⟩
  | cons _ _ ih =>
    rw [forall_mem_cons] at ha
    obtain ⟨_, hn⟩ := ha.1
    rw [fill, hn]
    exact ih ha.2 _

variable {source : SortedMap K V}

theorem traverse_get {r : SortedMap K W} (htr : source.traverse compute = .ok r) (key : K) :
    (source.get key = none ∧ r.get key = none) ∨
      ∃ v new, source.get key = some v ∧ compute key v = .ok new ∧ r.get key = some new := by
  have hg := get_fill source.sorted htr key
  change match source.get key with
    | none => _
    | some v => _ at hg
  cases hs : source.get key with
  | none =>
    rw [hs] at hg
    exact .inl ⟨rfl, hg⟩
  | some v =>
    rw [hs] at hg
    obtain ⟨new, hcm, hr⟩ := hg
    exact .inr ⟨v, new, rfl, hcm, hr⟩

theorem exists_traverse (ha : ∀ key v, source.get key = some v → ∃ new, compute key v = .ok new) :
    ∃ result, source.traverse compute = .ok result := by
  apply exists_fill
  rintro ⟨key, v⟩ hmem
  exact ha key v (get_eq_some_iff.mpr hmem)

def insertAll (map : SortedMap K V) (entries : List (K × V)) : SortedMap K V :=
  entries.foldl (fun map entry => map.insert entry.1 entry.2) map

theorem get_insertAll_of_not_mem {map : SortedMap K V} (hfr : ∀ v, (key, v) ∉ es) :
    (map.insertAll es).get key = map.get key := by
  induction es generalizing map with
  | nil => rfl
  | cons e es ih =>
    have hne : key ≠ e.1 := by
      rintro rfl
      exact hfr e.2 mem_cons_self
    change ((map.insert e.1 e.2).insertAll es).get key = _
    rw [ih fun v hm => hfr v (mem_cons_of_mem _ hm), get_insert_of_ne map e.2 hne]

theorem mem_of_get_insertAll {map : SortedMap K V} (hg : (map.insertAll es).get key = some v) :
    (key, v) ∈ es ∨ (∀ other, (key, other) ∉ es) ∧ map.get key = some v := by
  induction es generalizing map with
  | nil => exact .inr ⟨by simp, hg⟩
  | cons e _ ih =>
    rcases ih hg with hm | ⟨hfr, hp⟩
    · exact .inl (mem_cons_of_mem _ hm)
    rw [get_insert] at hp
    by_cases hk : key = e.1
    · rw [if_pos hk] at hp
      cases hp
      exact .inl (by simp [hk])
    rw [if_neg hk] at hp
    refine .inr ⟨fun other hm => ?_, hp⟩
    rcases mem_cons.mp hm with rfl | hlat
    · exact hk rfl
    · exact hfr other hlat

theorem exists_get_insertAll (map : SortedMap K V) (hm : (key, v) ∈ es) :
    ∃ la, (map.insertAll es).get key = some la ∧ (key, la) ∈ es := by
  induction es generalizing map v with
  | nil => cases hm
  | cons e es ih =>
    by_cases hl : ∃ other, (key, other) ∈ es
    · obtain ⟨_, ho⟩ := hl
      obtain ⟨la, hg, hla⟩ := ih (map.insert e.1 e.2) ho
      exact ⟨la, hg, mem_cons_of_mem _ hla⟩
    rw [not_exists] at hl
    rcases mem_cons.mp hm with rfl | hin
    · refine ⟨v, ?_, mem_cons_self⟩
      change ((map.insert key v).insertAll es).get key = _
      rw [get_insertAll_of_not_mem hl, get_insert_self]
    · exact absurd hin (hl v)

theorem get_insertAll_congr (map other : SortedMap K V) (hm : (key, v) ∈ es) :
    (map.insertAll es).get key = (other.insertAll es).get key := by
  induction es generalizing map other v with
  | nil => cases hm
  | cons first rest ih =>
    by_cases hl : ∃ value', (key, value') ∈ rest
    · obtain ⟨_, hvl'⟩ := hl
      exact ih (map.insert first.1 first.2) (other.insert first.1 first.2) hvl'
    rw [not_exists] at hl
    have hf : (key, v) = first := (mem_cons.mp hm).resolve_right (hl v)
    change ((map.insert first.1 first.2).insertAll rest).get key =
      ((other.insert first.1 first.2).insertAll rest).get key
    rw [get_insertAll_of_not_mem hl, get_insertAll_of_not_mem hl,
      ← hf, get_insert_self, get_insert_self]

theorem get_insertAll_iff {map : SortedMap K V} (hky : (es.map Prod.fst).Nodup) :
    (map.insertAll es).get key = some v ↔
      (key, v) ∈ es ∨ (∀ other, (key, other) ∉ es) ∧ map.get key = some v := by
  constructor
  · exact mem_of_get_insertAll
  · rintro (hm | ⟨hfr, hg⟩)
    · obtain ⟨_, hg, hla⟩ := exists_get_insertAll map hm
      rw [hg, inj_on_of_nodup_map hky hla hm rfl |> Prod.mk.inj |>.2]
    · rw [get_insertAll_of_not_mem hfr, hg]

theorem keys_nodup (map : SortedMap K V) : map.keys.Nodup := map.keys_sorted.imp ne_of_lt

theorem get_insertAll_entries (map changes : SortedMap K V) (key : K) :
    (map.insertAll changes.entries).get key = (changes.get key).or (map.get key) := by
  ext v
  rw [get_insertAll_iff changes.keys_nodup, ← get_eq_some_iff, ← get_eq_none_iff]
  cases changes.get key with
  | none | some => simp

def eraseAll (map : SortedMap K V) (keys : List K) : SortedMap K V :=
  map.restrict fun key => decide (key ∉ keys)

theorem get_eraseAll (map : SortedMap K V) (ks : List K) (key : K) :
    (map.eraseAll ks).get key = if key ∈ ks then none else map.get key := by
  rw [eraseAll, get_restrict]
  by_cases hm : key ∈ ks <;> simp [hm]

variable (resolve : W → Option V)

/-- Applies one change: a change that resolves to no value removes the key. -/
def change (map : SortedMap K V) (entry : K × W) : SortedMap K V :=
  match resolve entry.2 with
  | none => map.erase entry.1
  | some value => map.insert entry.1 value

theorem get_change (map : SortedMap K V) (e : K × W) (key : K) :
    (change resolve map e).get key =
      if key = e.1 then resolve e.2 else map.get key := by
  unfold change
  cases hr : resolve e.2 with
  | none => simp [get_erase]
  | some => simp [get_insert]

variable (base : SortedMap K V)

def overlay (changes : SortedMap K W) : SortedMap K V :=
  changes.entries.foldl (change resolve) base

theorem get_foldl_change {changes : List (K × W)}
    (hsr : changes.Pairwise fun a b => a.1 < b.1) (base : SortedMap K V) (key : K) :
    (changes.foldl (change resolve) base).get key =
      (changes.lookup key).elim (base.get key) resolve := by
  induction changes generalizing base with
  | nil => rfl
  | cons e _ ih =>
    rw [pairwise_cons] at hsr
    rw [foldl_cons, ih hsr.2, get_change, lookup_cons_eq]
    by_cases hk : key = e.1
    · subst hk
      simp [lookup_eq_none_of_lt hsr.1]
    · simp [hk]

theorem get_overlay (changes : SortedMap K W) (key : K) :
    (overlay resolve base changes).get key = (changes.get key).elim (base.get key) resolve :=
  get_foldl_change resolve changes.sorted base key

theorem restrict_overlay (keep : K → Bool) (resolve : W → Option V)
    (base : SortedMap K V) (changes : SortedMap K W) :
    (overlay resolve base changes).restrict keep =
      overlay resolve (base.restrict keep) (changes.restrict keep) := by
  apply ext_get
  intro key
  rw [get_restrict, get_overlay, get_overlay, get_restrict, get_restrict]
  split_ifs <;> rfl

/-! ## Walking the base and the changes side by side -/

def emit (entry : K × W) (rest : List (K × V)) : List (K × V) :=
  match resolve entry.2 with
  | none => rest
  | some value => (entry.1, value) :: rest

variable {resolve : W → Option V} {rest : List (K × V)} {e : K × W}

theorem lookup_emit (key : K) :
    (emit resolve e rest).lookup key =
      if key = e.1 then (resolve e.2).or (rest.lookup key) else rest.lookup key := by
  unfold emit
  cases resolve e.2 with
  | none => simp
  | some => simp [lookup_cons_eq]

theorem lt_emit (he : key < e.1) (hrs : ∀ other ∈ rest, key < other.1) :
    ∀ other ∈ emit resolve e rest, key < other.1 := by
  unfold emit
  cases resolve e.2 with
  | none => exact hrs
  | some => exact forall_mem_cons.mpr ⟨he, hrs⟩

theorem emit_sorted
    (hrs : ∀ other ∈ rest, e.1 < other.1) (hsr : rest.Pairwise fun a b => a.1 < b.1) :
    (emit resolve e rest).Pairwise fun a b => a.1 < b.1 := by
  unfold emit
  cases resolve e.2 with
  | none => exact hsr
  | some => exact pairwise_cons.mpr ⟨hrs, hsr⟩

def overlayEntries (resolve : W → Option V) : List (K × V) → List (K × W) → List (K × V)
  | base, [] => base
  | [], entry :: changes => emit resolve entry (overlayEntries resolve [] changes)
  | old :: base, entry :: changes =>
    if old.1 < entry.1 then
      old :: overlayEntries resolve base (entry :: changes)
    else if old.1 = entry.1 then
      emit resolve entry (overlayEntries resolve base changes)
    else emit resolve entry (overlayEntries resolve (old :: base) changes)
termination_by base changes => base.length + changes.length

section Overlay

variable {resolve : W → Option V} {base : List (K × V)} {changes : List (K × W)}

theorem lt_overlayEntries (hbs : ∀ e ∈ base, key < e.1) (hch : ∀ e ∈ changes, key < e.1) :
    ∀ e ∈ overlayEntries resolve base changes, key < e.1 := by
  fun_induction overlayEntries resolve base changes with
  | case1 => exact hbs
  | case2 _ _ ih =>
    rw [forall_mem_cons] at hch
    exact lt_emit hch.1 (ih hbs hch.2)
  | case3 _ _ _ _ _ ih =>
    rw [forall_mem_cons] at hbs ⊢
    exact ⟨hbs.1, ih hbs.2 hch⟩
  | case4 _ _ _ _ _ _ ih =>
    rw [forall_mem_cons] at hbs hch
    exact lt_emit hch.1 (ih hbs.2 hch.2)
  | case5 _ _ _ _ _ _ ih =>
    rw [forall_mem_cons] at hch
    exact lt_emit hch.1 (ih hbs hch.2)

variable (hbs : base.Pairwise fun a b => a.1 < b.1) (hch : changes.Pairwise fun a b => a.1 < b.1)

include hbs hch

theorem overlayEntries_sorted :
    (overlayEntries resolve base changes).Pairwise fun a b => a.1 < b.1 := by
  fun_induction overlayEntries resolve base changes with
  | case1 => exact hbs
  | case2 _ _ ih =>
    rw [pairwise_cons] at hch
    exact emit_sorted (lt_overlayEntries (by simp) hch.1) (ih hbs hch.2)
  | case3 _ _ _ _ hle ih =>
    rw [pairwise_cons] at hbs
    refine pairwise_cons.mpr ⟨lt_overlayEntries hbs.1 ?_, ih hbs.2 hch⟩
    exact forall_mem_cons.mpr ⟨hle, fun lt hl =>
      hle.trans ((pairwise_cons.mp hch).1 lt hl)⟩
  | case4 _ _ _ _ _ heq ih =>
    rw [pairwise_cons] at hbs hch
    exact emit_sorted (lt_overlayEntries (heq ▸ hbs.1) hch.1) (ih hbs.2 hch.2)
  | case5 old _ e _ hle heq ih =>
    have hmr : e.1 < old.1 := lt_of_le_of_ne (not_lt.mp hle) (Ne.symm heq)
    rw [pairwise_cons] at hch
    refine emit_sorted (lt_overlayEntries ?_ hch.1) (ih hbs hch.2)
    exact forall_mem_cons.mpr ⟨hmr, fun lt hl =>
      hmr.trans ((pairwise_cons.mp hbs).1 lt hl)⟩

theorem lookup_overlayEntries (key : K) :
    (overlayEntries resolve base changes).lookup key =
      (changes.lookup key).elim (base.lookup key) resolve := by
  fun_induction overlayEntries resolve base changes with
  | case1 => rfl
  | case2 e _ ih =>
    rw [pairwise_cons] at hch
    rw [lookup_emit, ih hbs hch.2, lookup_cons_eq]
    by_cases hk : key = e.1
    · subst hk
      simp [lookup_eq_none_of_lt hch.1]
    · simp [hk]
  | case3 old _ e changes hle ih =>
    rw [lookup_cons_eq, ih (pairwise_cons.mp hbs).2 hch]
    by_cases hk : key = old.1
    · subst hk
      have hfr : (e :: changes).lookup old.1 = none :=
        lookup_eq_none_of_lt (forall_mem_cons.mpr ⟨hle, fun lt hl =>
          hle.trans ((pairwise_cons.mp hch).1 lt hl)⟩)
      simp [hfr, lookup_cons_eq]
    · simp [hk, lookup_cons_eq]
  | case4 _ _ e _ _ heq ih =>
    rw [pairwise_cons] at hbs hch
    rw [lookup_emit, ih hbs.2 hch.2, lookup_cons_eq, lookup_cons_eq]
    by_cases hk : key = e.1
    · subst hk
      simp [lookup_eq_none_of_lt hch.1, lookup_eq_none_of_lt (heq ▸ hbs.1)]
    · simp [hk, heq]
  | case5 old base e _ hle heq ih =>
    have hmr : e.1 < old.1 := lt_of_le_of_ne (not_lt.mp hle) (Ne.symm heq)
    rw [pairwise_cons] at hch
    rw [lookup_emit, ih hbs hch.2]
    by_cases hk : key = e.1
    · subst hk
      have hfr : (old :: base).lookup e.1 = none :=
        lookup_eq_none_of_lt (forall_mem_cons.mpr ⟨hmr, fun lt hl =>
          hmr.trans ((pairwise_cons.mp hbs).1 lt hl)⟩)
      simp [hfr, lookup_eq_none_of_lt hch.1, lookup_cons_eq]
    · simp [hk, lookup_cons_eq]

end Overlay

theorem overlayEntries_eq (base : SortedMap K V) (changes : SortedMap K W) :
    overlayEntries resolve base.entries changes.entries =
      (overlay resolve base changes).entries := by
  have hmp : ⟨overlayEntries resolve base.entries changes.entries,
      overlayEntries_sorted base.sorted changes.sorted⟩ = overlay resolve base changes := by
    apply ext_get
    intro key
    rw [get_overlay]
    exact lookup_overlayEntries base.sorted changes.sorted key
  rw [← hmp]

end SortedMap
