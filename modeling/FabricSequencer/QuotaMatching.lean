import Mathlib.Combinatorics.Hall.Basic
import Mathlib.Algebra.BigOperators.Group.Finset.Sigma
import Mathlib.Tactic

/-!
# Distinct representatives with quotas

Each of finitely many groups asks for a number of its members.  Distinct
members can be chosen for all places of all groups exactly when no set of
groups asks for more than it has members altogether.
-/

namespace QuotaMatching

open Finset

variable {G A : Type} [DecidableEq G] [DecidableEq A]

abbrev Place (groups : Finset G) (quota : G → ℕ) : Type :=
  Σ group : { group // group ∈ groups }, Fin (quota group)

def groupsOf {groups : Finset G} {quota : G → ℕ}
    (places : Finset (Place groups quota)) : Finset G :=
  places.image fun place => place.1.1

variable {quota : G → ℕ}

theorem groupsOf_subset {groups : Finset G}
    (places : Finset (Place groups quota)) : groupsOf places ⊆ groups := by
  intro _ hg
  obtain ⟨place, -, rfl⟩ := mem_image.mp hg
  exact place.1.2

def placesOf (groups : Finset G) (quota : G → ℕ) (chosen : Finset G) :
    Finset (Place groups quota) :=
  (groups.attach.filter fun group => group.1 ∈ chosen).sigma fun _ => Finset.univ

theorem mem_placesOf_iff {gs chosen : Finset G} {place : Place gs quota} :
    place ∈ placesOf gs quota chosen ↔ place.1.1 ∈ chosen := by
  simp [placesOf]

theorem card_placesOf {gs cn : Finset G} (quota : G → ℕ) (hc : cn ⊆ gs) :
    (placesOf gs quota cn).card = ∑ group ∈ cn, quota group := by
  rw [placesOf, card_sigma]
  simp only [card_univ, Fintype.card_fin]
  apply sum_nbij Subtype.val
  · intro _ hg
    exact (mem_filter.mp hg).2
  · exact Subtype.val_injective.injOn
  · intro group hg
    exact ⟨⟨group, hc hg⟩, by simpa using hg, rfl⟩
  · intro _ _
    rfl

theorem card_le_sum_groupsOf {gs : Finset G} (places : Finset (Place gs quota)) :
    places.card ≤ ∑ group ∈ groupsOf places, quota group := by
  rw [← card_placesOf quota (groupsOf_subset places)]
  apply card_le_card
  intro _ hpl
  exact mem_placesOf_iff.mpr (mem_image_of_mem _ hpl)

theorem exists_choice_iff (gs : Finset G) (quota : G → ℕ) (members : G → Finset A) :
    (∃ ch : Place gs quota → A, Function.Injective ch ∧ ∀ place, ch place ∈ members place.1) ↔
      ∀ chosen ⊆ gs, ∑ group ∈ chosen, quota group ≤ (chosen.biUnion members).card := by
  rw [← all_card_le_biUnion_card_iff_exists_injective fun place : Place gs quota => members place.1]
  constructor
  · intro hp _ hc
    rw [← card_placesOf quota hc]
    refine (hp _).trans (card_le_card ?_)
    intro _ hb
    obtain ⟨place, hpl, hm⟩ := mem_biUnion.mp hb
    exact mem_biUnion.mpr ⟨place.1, mem_placesOf_iff.mp hpl, hm⟩
  · intro hgr places
    refine (card_le_sum_groupsOf places).trans
      ((hgr _ (groupsOf_subset places)).trans (card_le_card ?_))
    intro _ hb
    obtain ⟨_, hg, hm⟩ := mem_biUnion.mp hb
    obtain ⟨place, hpl, rfl⟩ := mem_image.mp hg
    exact mem_biUnion.mpr ⟨place, hpl, hm⟩

end QuotaMatching
