import FabricSequencer.GoTypes
import FabricSequencer.QuotaMatching
import FabricSequencer.SortedMap

/-!
# The endorsement descriptor of discovery

`computeEndorsementResponse` turns the principal sets of a policy into layouts.
A layout asks for a number of peers of each of its groups, and the descriptor
lists the peers of each group.  Whether there are enough peers is decided for
each group by itself, although one peer may be in several groups.

A group is an alias `G0`, `G1`, ... of a principal and is written as its
number.
-/

namespace FabricSequencer.Endorsement

open SortedMap List Finset

structure PrincipalKey where
  cls : ℤ
  principal : GoString
deriving DecidableEq

structure NetworkMember where
  pkiId : GoString
  envelope : Bytes

/-- `discovery.Peer`.  The identifier is the one in the membership message. -/
structure Peer where
  pkiId : GoString
  identity : Bytes
  stateInfo : Bytes
  membershipInfo : Bytes

/-- What the analyzer is given.  The order of the principals is that in which
`mapPrincipalsToGroups` visits its set. -/
structure Context where
  chaincode : GoString
  aliveMembership : List NetworkMember
  principalsSets : List (List PrincipalKey)
  channelMembersById : SortedMap GoString NetworkMember
  identitiesOfMembers : SortedMap GoString Bytes
  chaincodeMapping : SortedMap GoString NetworkMember
  satisfiesPrincipal : Bytes → PrincipalKey → Bool
  principalOrder : List PrincipalKey
  order_nodup : principalOrder.Nodup
  mem_order_iff : ∀ principal, principal ∈ principalOrder ↔
    ∃ principalSet ∈ principalsSets, principal ∈ principalSet

structure Layout where
  quantitiesByGroup : SortedMap ℕ ℕ

structure EndorsementDescriptor where
  chaincode : GoString
  layouts : List Layout
  endorsersByGroups : SortedMap ℕ (List Peer)

namespace Context

variable (ctx : Context) (principal : PrincipalKey)

/-- `principalGroupMapper.group`, after `mapPrincipalsToGroups`. -/
def group : ℕ := ctx.principalOrder.idxOf principal

section

variable (pkiId : GoString)

def identityOf : Bytes := (ctx.identitiesOfMembers.get pkiId).getD []

/-- The neighbours of a principal in `principalsToPeersGraph`, which are kept
by their identifiers. -/
def neighbors : SortedMap GoString NetworkMember :=
  SortedMap.empty.insertAll ((ctx.aliveMembership.filter fun member =>
      ctx.satisfiesPrincipal (ctx.identityOf member.pkiId) principal).map
        fun member => (member.pkiId, member))

def stateInfo : NetworkMember :=
  (ctx.channelMembersById.get pkiId).getD { pkiId := [], envelope := [] }

def hasChaincodeInstalled : Bool :=
  (ctx.chaincodeMapping.get (ctx.stateInfo pkiId).pkiId).isSome

end

def peerList : List Peer :=
  ((ctx.neighbors principal).entries.filter fun entry =>
    ctx.hasChaincodeInstalled entry.2.pkiId).map fun entry =>
      { pkiId := entry.2.pkiId
        identity := ctx.identityOf entry.2.pkiId
        stateInfo := (ctx.stateInfo entry.2.pkiId).envelope
        membershipInfo := entry.2.envelope }

def uniqueSet (principalSet : List PrincipalKey) : List (PrincipalKey × ℕ) :=
  principalSet.dedup.map fun principal =>
    (principal, principalSet.count principal)

def layoutOf (principalSet : List PrincipalKey) : Layout where
  quantitiesByGroup := SortedMap.empty.insertAll ((uniqueSet principalSet).map fun entry =>
      (ctx.group entry.1, uint32 entry.2))

def isLayoutSatisfied (layout : Layout) : Bool :=
  layout.quantitiesByGroup.entries.all fun entry =>
    match ctx.principalOrder[entry.1]? with
    | none => false
    | some principal => entry.2 ≤ (ctx.neighbors principal).entries.length

def computeLayouts : List Layout :=
  (ctx.principalsSets.map ctx.layoutOf).filter ctx.isLayoutSatisfied

/-- `groupsSet`. -/
def inGroupsSet (layouts : List Layout) (group : ℕ) : Bool :=
  layouts.any fun layout => (layout.quantitiesByGroup.get group).isSome

def endorsersByGroup (possibleLayouts : List Layout) : SortedMap ℕ (List Peer) :=
  SortedMap.empty.insertAll ((ctx.principalOrder.filter fun principal =>
      inGroupsSet possibleLayouts (ctx.group principal) &&
        !(ctx.peerList principal).isEmpty).map fun principal =>
          (ctx.group principal, ctx.peerList principal))

def filterOutUnsatisfiedLayouts (endorsers : SortedMap ℕ (List Peer))
    (layouts : List Layout) : List Layout :=
  layouts.filter fun layout =>
    layout.quantitiesByGroup.entries.all fun entry =>
      match endorsers.get entry.1 with
      | none => false
      | some peers => entry.2 ≤ peers.length

def computeEndorsementResponse : Except String EndorsementDescriptor :=
  let layouts := ctx.computeLayouts
  if layouts.length = 0 then
    .error "no peer combination can satisfy the endorsement policy"
  else
    let endorsers := ctx.endorsersByGroup layouts
    let satisfied := filterOutUnsatisfiedLayouts endorsers layouts
    if satisfied.length = 0 then
      .error "required chaincodes are not installed on sufficient peers"
    else
      .ok { chaincode := ctx.chaincode
            layouts := satisfied
            endorsersByGroups := endorsers }

end Context

namespace Layout

def groups (layout : Layout) : Finset ℕ := layout.quantitiesByGroup.keys.toFinset

def quantity (layout : Layout) (group : ℕ) : ℕ := (layout.quantitiesByGroup.get group).getD 0

end Layout

variable (descriptor : EndorsementDescriptor)

def EndorsementDescriptor.peers (group : ℕ) : List Peer :=
  (descriptor.endorsersByGroups.get group).getD []

/-- A choice of pairwise distinct peers from the lists of the descriptor, one
for each place of the layout. -/
def Realizable (layout : Layout) : Prop :=
  ∃ choice : QuotaMatching.Place layout.groups layout.quantity → Peer,
    (∀ place, choice place ∈ descriptor.peers place.1) ∧
      ∀ first second, (choice first).pkiId = (choice second).pkiId → first = second

def EndorsementDescriptor.identifiers (group : ℕ) : Finset GoString :=
  ((descriptor.peers group).map Peer.pkiId).toFinset

open EndorsementDescriptor

theorem realizable_iff_choice (layout : Layout) :
    Realizable descriptor layout ↔
      ∃ ch : QuotaMatching.Place layout.groups layout.quantity → GoString,
        Function.Injective ch ∧ ∀ place, ch place ∈ descriptor.identifiers place.1 := by
  constructor
  · rintro ⟨ch, hm, hds⟩
    refine ⟨fun place => (ch place).pkiId, ?_, ?_⟩
    · intro first b heq
      exact hds first b heq
    · intro place
      rw [identifiers, List.mem_toFinset]
      exact List.mem_map_of_mem (hm place)
  rintro ⟨identifier, hin, hm⟩
  have hpr : ∀ place, ∃ peer, peer ∈ descriptor.peers place.1 ∧ peer.pkiId = identifier place := by
    intro place
    have hpl := hm place
    rw [identifiers, List.mem_toFinset, List.mem_map] at hpl
    exact hpl
  choose ch hc hid using hpr
  refine ⟨ch, hc, ?_⟩
  intro _ _ heq
  rw [hid, hid] at heq
  exact hin heq

theorem realizable_iff (layout : Layout) :
    Realizable descriptor layout ↔ ∀ chosen ⊆ layout.groups,
      ∑ group ∈ chosen, layout.quantity group ≤ (chosen.biUnion descriptor.identifiers).card := by
  rw [realizable_iff_choice]
  exact QuotaMatching.exists_choice_iff _ _ _

namespace Context

variable (ctx : Context)

def eligible (principal : PrincipalKey) : Finset GoString :=
  ((ctx.aliveMembership.filter fun member =>
    ctx.satisfiesPrincipal (ctx.identityOf member.pkiId) principal &&
      ctx.hasChaincodeInstalled member.pkiId).map NetworkMember.pkiId).toFinset

variable {principal : PrincipalKey}

theorem mem_neighbors {pkiId : GoString}
    {member : NetworkMember} (hg : (ctx.neighbors principal).get pkiId = some member) :
    pkiId = member.pkiId ∧ member ∈ ctx.aliveMembership ∧
      ctx.satisfiesPrincipal (ctx.identityOf member.pkiId) principal = true := by
  rcases mem_of_get_insertAll hg with hmem | ⟨-, hn⟩
  · obtain ⟨_, hfn, heq⟩ := mem_map.mp hmem
    cases heq
    obtain ⟨hal, hs⟩ := mem_filter.mp hfn
    exact ⟨rfl, hal, hs⟩
  · rw [get_empty] at hn
    cases hn

theorem exists_neighbor {member : NetworkMember} (hal : member ∈ ctx.aliveMembership)
    (hs : ctx.satisfiesPrincipal (ctx.identityOf member.pkiId) principal = true) :
    ∃ found, (ctx.neighbors principal).get member.pkiId = some found := by
  have hm : (member.pkiId, member) ∈ (ctx.aliveMembership.filter fun member =>
        ctx.satisfiesPrincipal (ctx.identityOf member.pkiId) principal).map
          fun member => (member.pkiId, member) :=
    mem_map_of_mem (f := fun member => (member.pkiId, member)) (mem_filter.mpr ⟨hal, hs⟩)
  obtain ⟨la, hla, -⟩ := exists_get_insertAll SortedMap.empty hm
  exact ⟨la, hla⟩

section

variable (principal : PrincipalKey)

theorem map_pkiId_peerList :
    (ctx.peerList principal).map Peer.pkiId =
      (ctx.neighbors principal).keys.filter ctx.hasChaincodeInstalled := by
  have hky : ∀ e ∈ (ctx.neighbors principal).entries, e.1 = e.2.pkiId := by
    rintro ⟨_, _⟩ he
    exact (ctx.mem_neighbors (SortedMap.get_eq_some_iff.mpr he)).1
  rw [peerList, SortedMap.keys, List.map_map, List.filter_map]
  have hf : (ctx.neighbors principal).entries.filter
      (fun e => ctx.hasChaincodeInstalled e.2.pkiId) =
      (ctx.neighbors principal).entries.filter (ctx.hasChaincodeInstalled ∘ Prod.fst) := by
    apply List.filter_congr
    intro e he
    rw [Function.comp_apply, hky e he]
  rw [hf]
  apply map_congr_left
  intro e he
  exact (hky e (mem_filter.mp he).1).symm

theorem toFinset_peerList :
    ((ctx.peerList principal).map Peer.pkiId).toFinset = ctx.eligible principal := by
  ext pkiId
  rw [map_pkiId_peerList, List.mem_toFinset, List.mem_filter,
    SortedMap.mem_keys_iff, eligible, List.mem_toFinset, List.mem_map]
  constructor
  · rintro ⟨⟨member, hg⟩, hinstalled⟩
    obtain ⟨rfl, hal, hs⟩ := ctx.mem_neighbors hg
    refine ⟨member, mem_filter.mpr ⟨hal, ?_⟩, rfl⟩
    rw [hs, hinstalled]
    rfl
  · rintro ⟨_, hm, rfl⟩
    obtain ⟨hal, hbo⟩ := mem_filter.mp hm
    rw [Bool.and_eq_true] at hbo
    exact ⟨ctx.exists_neighbor hal hbo.1, hbo.2⟩

theorem length_peerList : (ctx.peerList principal).length = (ctx.eligible principal).card := by
  have hnd : ((ctx.peerList principal).map Peer.pkiId).Nodup := by
    rw [map_pkiId_peerList]
    exact (keys_nodup _).filter _
  rw [← toFinset_peerList, toFinset_card_of_nodup hnd, length_map]

theorem length_peerList_le :
    (ctx.peerList principal).length ≤ (ctx.neighbors principal).entries.length := by
  rw [peerList, length_map]
  exact length_filter_le _ _

theorem isEmpty_peerList :
    (ctx.peerList principal).isEmpty = false ↔ (ctx.eligible principal).Nonempty := by
  rw [← card_pos, ← length_peerList, isEmpty_eq_false_iff, length_pos_iff]

end

/-! ## The layouts of the descriptor -/

theorem group_injOn : Set.InjOn ctx.group { principal | principal ∈ ctx.principalOrder } := by
  intro _ hf _ _ heq
  exact (idxOf_inj hf).mp heq

variable {ps : List PrincipalKey}

section

variable (hset : ps ∈ ctx.principalsSets)

include hset

theorem mem_order (hpn : principal ∈ ps) : principal ∈ ctx.principalOrder :=
  (ctx.mem_order_iff principal).mpr ⟨ps, hset, hpn⟩

theorem get_layoutOf_iff {group quantity : ℕ} :
    (ctx.layoutOf ps).quantitiesByGroup.get group = some quantity ↔
      ∃ principal ∈ ps, ctx.group principal = group ∧ uint32 (ps.count principal) = quantity := by
  have hnd : (((uniqueSet ps).map fun e =>
      (ctx.group e.1, uint32 e.2)).map Prod.fst).Nodup := by
    rw [uniqueSet, List.map_map, List.map_map]
    apply List.Nodup.map_on _ (List.nodup_dedup ps)
    intro _ hf _ hs heq
    exact ctx.group_injOn (ctx.mem_order hset (mem_dedup.mp hf))
      (ctx.mem_order hset (mem_dedup.mp hs)) heq
  rw [layoutOf, get_insertAll_iff hnd]
  simp [uniqueSet]

theorem groups_layoutOf : (ctx.layoutOf ps).groups = ps.toFinset.image ctx.group := by
  ext group
  rw [Layout.groups, List.mem_toFinset, SortedMap.mem_keys_iff]
  simp only [ctx.get_layoutOf_iff hset, Finset.mem_image, List.mem_toFinset]
  constructor
  · rintro ⟨_, principal, hpn, hg, -⟩
    exact ⟨principal, hpn, hg⟩
  · rintro ⟨principal, hpn, hg⟩
    exact ⟨_, principal, hpn, hg, rfl⟩

theorem quantity_layoutOf (hpn : principal ∈ ps) :
    (ctx.layoutOf ps).quantity (ctx.group principal) = uint32 (ps.count principal) := by
  have hg := (ctx.get_layoutOf_iff hset).mpr ⟨principal, hpn, rfl, rfl⟩
  rw [Layout.quantity, hg, Option.getD_some]

end

theorem getElem?_group (hpn : principal ∈ ctx.principalOrder) :
    ctx.principalOrder[ctx.group principal]? = some principal :=
  List.getElem?_idxOf hpn

theorem all_layoutOf_iff (hset : ps ∈ ctx.principalsSets) (holds : ℕ × ℕ → Bool) :
    (ctx.layoutOf ps).quantitiesByGroup.entries.all holds = true ↔
      ∀ principal ∈ ps,
        holds (ctx.group principal, uint32 (ps.count principal)) =
          true := by
  rw [List.all_eq_true]
  constructor
  · intro ha principal hpn
    apply ha
    rw [← get_eq_some_iff, ctx.get_layoutOf_iff hset]
    exact ⟨principal, hpn, rfl, rfl⟩
  · rintro ha ⟨_, _⟩ hent
    obtain ⟨principal, hpn, rfl, rfl⟩ := (ctx.get_layoutOf_iff hset).mp (get_eq_some_iff.mpr hent)
    exact ha principal hpn

theorem isLayoutSatisfied_layoutOf_iff (hset : ps ∈ ctx.principalsSets) :
    ctx.isLayoutSatisfied (ctx.layoutOf ps) = true ↔
      ∀ principal ∈ ps, uint32 (ps.count principal) ≤ (ctx.neighbors principal).entries.length := by
  rw [isLayoutSatisfied, ctx.all_layoutOf_iff hset]
  apply forall₂_congr
  intro _ hpn
  rw [ctx.getElem?_group (ctx.mem_order hset hpn)]
  exact decide_eq_true_iff

theorem get_endorsersByGroup (layouts : List Layout) (hpn : principal ∈ ctx.principalOrder)
    (hin : inGroupsSet layouts (ctx.group principal) = true) :
    (ctx.endorsersByGroup layouts).get (ctx.group principal) =
      if (ctx.peerList principal).isEmpty then none
      else some (ctx.peerList principal) := by
  have hnd : (((ctx.principalOrder.filter fun principal =>
      inGroupsSet layouts (ctx.group principal) &&
        !(ctx.peerList principal).isEmpty).map fun principal =>
          (ctx.group principal, ctx.peerList principal)).map Prod.fst).Nodup := by
    rw [List.map_map]
    apply List.Nodup.map_on _ (ctx.order_nodup.filter _)
    intro _ hf _ hs heq
    exact ctx.group_injOn (mem_filter.mp hf).1 (mem_filter.mp hs).1 heq
  ext peers
  rw [endorsersByGroup, SortedMap.get_insertAll_iff hnd]
  simp only [List.mem_map, List.mem_filter, Prod.mk.injEq, SortedMap.get_empty,
    reduceCtorEq, and_false, or_false]
  constructor
  · rintro ⟨_, ⟨ho, hbo⟩, hgrp, rfl⟩
    obtain rfl := ctx.group_injOn ho hpn hgrp
    simp only [Bool.and_eq_true, Bool.not_eq_true'] at hbo
    rw [if_neg (by simp [hbo.2])]
  split_ifs with hn
  · intro hno
    cases hno
  · intro hsm
    cases hsm
    exact ⟨principal, ⟨hpn, by simp [hin, hn]⟩, rfl, rfl⟩

def Listed (principalSet : List PrincipalKey) : Prop :=
  ∀ principal ∈ principalSet, (ctx.eligible principal).Nonempty ∧
    uint32 (principalSet.count principal) ≤ (ctx.eligible principal).card

variable {ctx}

theorem Listed.isLayoutSatisfied (hset : ps ∈ ctx.principalsSets) (hls : ctx.Listed ps) :
    ctx.isLayoutSatisfied (ctx.layoutOf ps) = true := by
  rw [ctx.isLayoutSatisfied_layoutOf_iff hset]
  intro principal hpn
  have hcr := (hls principal hpn).2
  rw [← ctx.length_peerList] at hcr
  exact hcr.trans (ctx.length_peerList_le principal)

theorem inGroupsSet_of_mem (hset : ps ∈ ctx.principalsSets)
    (hl : ctx.layoutOf ps ∈ ctx.computeLayouts) (hpn : principal ∈ ps) :
    inGroupsSet ctx.computeLayouts (ctx.group principal) = true := by
  have hg := (ctx.get_layoutOf_iff hset).mpr ⟨principal, hpn, rfl, rfl⟩
  rw [inGroupsSet, List.any_eq_true]
  exact ⟨_, hl, by rw [hg, Option.isSome_some]⟩

theorem mem_computeLayouts {layout : Layout} (hl : layout ∈ ctx.computeLayouts) :
    ∃ ps ∈ ctx.principalsSets, ctx.layoutOf ps = layout := by
  obtain ⟨hm, -⟩ := mem_filter.mp hl
  exact mem_map.mp hm

theorem get_endorsers_of_mem (hset : ps ∈ ctx.principalsSets)
    (hl : ctx.layoutOf ps ∈ ctx.computeLayouts) (hpn : principal ∈ ps) :
    (ctx.endorsersByGroup ctx.computeLayouts).get (ctx.group principal) =
      if (ctx.peerList principal).isEmpty then none
      else some (ctx.peerList principal) :=
  ctx.get_endorsersByGroup _ (ctx.mem_order hset hpn) (inGroupsSet_of_mem hset hl hpn)

theorem layoutOf_mem_iff (hset : ps ∈ ctx.principalsSets) :
    ctx.layoutOf ps ∈
        filterOutUnsatisfiedLayouts (ctx.endorsersByGroup ctx.computeLayouts) ctx.computeLayouts ↔
      ctx.Listed ps := by
  rw [filterOutUnsatisfiedLayouts, mem_filter, ctx.all_layoutOf_iff hset]
  constructor
  · rintro ⟨hl, ha⟩ principal hpn
    have he := ha principal hpn
    rw [get_endorsers_of_mem hset hl hpn] at he
    split_ifs at he with hn
    rw [← ctx.isEmpty_peerList, ← ctx.length_peerList]
    exact ⟨Bool.eq_false_iff.mpr hn, of_decide_eq_true he⟩
  intro hls
  have hl : ctx.layoutOf ps ∈ ctx.computeLayouts :=
    mem_filter.mpr ⟨mem_map_of_mem hset, hls.isLayoutSatisfied hset⟩
  refine ⟨hl, ?_⟩
  intro principal hpn
  obtain ⟨hne, hcr⟩ := hls principal hpn
  rw [← ctx.isEmpty_peerList] at hne
  rw [← ctx.length_peerList] at hcr
  rw [get_endorsers_of_mem hset hl hpn, if_neg (by simp [hne])]
  exact decide_eq_true hcr

variable (ctx) in
/-- The condition of Hall: no selection of principals asks for more peers than
there are for all of them together. -/
def EnoughTogether (principalSet : List PrincipalKey) : Prop :=
  ∀ chosen ⊆ principalSet.toFinset,
    ∑ principal ∈ chosen, uint32 (principalSet.count principal) ≤ (chosen.biUnion ctx.eligible).card

variable {descriptor : EndorsementDescriptor}

theorem realizable_layoutOf_iff
    (heo : descriptor.endorsersByGroups = ctx.endorsersByGroup ctx.computeLayouts)
    (hset : ps ∈ ctx.principalsSets) (hls : ctx.Listed ps) :
    Realizable descriptor (ctx.layoutOf ps) ↔ ctx.EnoughTogether ps := by
  have hl : ctx.layoutOf ps ∈ ctx.computeLayouts :=
    mem_filter.mpr ⟨mem_map_of_mem hset, hls.isLayoutSatisfied hset⟩
  have hid : ∀ principal ∈ ps,
      descriptor.identifiers (ctx.group principal) = ctx.eligible principal := by
    intro principal hpn
    have hne := (hls principal hpn).1
    rw [← ctx.isEmpty_peerList] at hne
    rw [identifiers, peers, heo, get_endorsers_of_mem hset hl hpn,
      if_neg (by simp [hne]), Option.getD_some, ctx.toFinset_peerList]
  -- Sets of groups are the images of sets of principals.
  have htr : ∀ cn ⊆ ps.toFinset,
      ∑ group ∈ cn.image ctx.group, (ctx.layoutOf ps).quantity group =
        ∑ principal ∈ cn, uint32 (ps.count principal) ∧
      (cn.image ctx.group).biUnion descriptor.identifiers = cn.biUnion ctx.eligible := by
    intro cn hc
    have hm : ∀ principal ∈ cn, principal ∈ ps := by
      intro _ hpn
      exact mem_toFinset.mp (hc hpn)
    constructor
    · rw [sum_image]
      · apply sum_congr rfl
        intro principal hpn
        exact ctx.quantity_layoutOf hset (hm principal hpn)
      · intro first hf b hs heq
        exact ctx.group_injOn (ctx.mem_order hset (hm first hf)) (ctx.mem_order hset (hm b hs)) heq
    · rw [image_biUnion]
      apply biUnion_congr rfl
      intro principal hpn
      exact hid principal (hm principal hpn)
  rw [realizable_iff, ctx.groups_layoutOf hset]
  constructor
  · intro hgr cn hc
    obtain ⟨hsum, hun⟩ := htr cn hc
    rw [← hsum, ← hun]
    exact hgr _ (image_subset_image hc)
  · intro hp _ hgr
    obtain ⟨cn, hc, rfl⟩ := subset_image_iff.mp hgr
    obtain ⟨hsum, hun⟩ := htr cn hc
    rw [hsum, hun]
    exact hp cn hc

theorem eq_of_computeEndorsementResponse (hrs : ctx.computeEndorsementResponse = .ok descriptor) :
    descriptor.endorsersByGroups = ctx.endorsersByGroup ctx.computeLayouts ∧
      descriptor.layouts =
        filterOutUnsatisfiedLayouts (ctx.endorsersByGroup ctx.computeLayouts)
          ctx.computeLayouts := by
  unfold computeEndorsementResponse at hrs
  dsimp only at hrs
  split_ifs at hrs
  cases hrs
  exact ⟨rfl, rfl⟩

/-- Every layout of the descriptor can be realized exactly when the principal
sets whose principals have enough peers one by one also have enough peers for
any of their principals together. -/
theorem all_realizable_iff {descriptor : EndorsementDescriptor}
    (hresponse : ctx.computeEndorsementResponse = .ok descriptor) :
    (∀ layout ∈ descriptor.layouts, Realizable descriptor layout) ↔
      ∀ principalSet ∈ ctx.principalsSets, ctx.Listed principalSet →
        ctx.EnoughTogether principalSet := by
  obtain ⟨heo, hlay⟩ := eq_of_computeEndorsementResponse hresponse
  rw [hlay]
  constructor
  · intro hall _ hset hls
    rw [← realizable_layoutOf_iff heo hset hls]
    exact hall _ ((layoutOf_mem_iff hset).mpr hls)
  intro heng _ hlyt
  obtain ⟨principalSet, hset, rfl⟩ := mem_computeLayouts (mem_filter.mp hlyt).1
  have hls := (layoutOf_mem_iff hset).mp hlyt
  rw [realizable_layoutOf_iff heo hset hls]
  exact heng principalSet hset hls

def memberPrincipal : PrincipalKey := ⟨0, ascii "Org1MSP.member"⟩

def adminPrincipal : PrincipalKey := ⟨0, ascii "Org1MSP.admin"⟩

/-- A channel with one peer, which satisfies both principals of the policy. -/
def onePeer : Context where
  chaincode := ascii "basic"
  aliveMembership := [{ pkiId := [1], envelope := [] }]
  principalsSets := [[memberPrincipal, adminPrincipal]]
  channelMembersById := SortedMap.empty.insert [1] { pkiId := [1], envelope := [] }
  identitiesOfMembers := SortedMap.empty.insert [1] [1]
  chaincodeMapping := SortedMap.empty.insert [1] { pkiId := [1], envelope := [] }
  satisfiesPrincipal := fun _ _ => true
  principalOrder := [memberPrincipal, adminPrincipal]
  order_nodup := by decide
  mem_order_iff := by simp

theorem onePeer_all_realizable_iff :
    ∃ descriptor, onePeer.computeEndorsementResponse = .ok descriptor ∧
      ((∀ layout ∈ descriptor.layouts, Realizable descriptor layout) ↔
        ∀ principalSet ∈ onePeer.principalsSets, onePeer.Listed principalSet →
          onePeer.EnoughTogether principalSet) :=
  ⟨_, rfl, all_realizable_iff rfl⟩

/-- The layout asks for two peers, one of each group, and there is one. -/
theorem onePeer_not_realizable :
    ∃ descriptor layout, onePeer.computeEndorsementResponse = .ok descriptor ∧
      layout ∈ descriptor.layouts ∧ ¬ Realizable descriptor layout := by
  refine ⟨_, _, rfl, List.mem_singleton_self _, ?_⟩
  rw [realizable_iff]
  intro hall
  exact absurd (hall {0, 1} (by decide)) (by decide)

end Context

end FabricSequencer.Endorsement
