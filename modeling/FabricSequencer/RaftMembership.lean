import FabricSequencer.GoTypes
import FabricSequencer.SortedMap

/-!
# Membership of a raft cluster

A channel configuration lists its consenters; the metadata of every block
keeps the raft id of each of them, by position, and the next id to give out.
`ComputeMembershipChanges` compares the consenters of a new configuration with
the ones it has, and accepts an update that changes at most one of them.

Consenters are compared by their client certificate.  Go visits a map in any
order, so the two loops over the old consenters each take the order they see.
-/

namespace FabricSequencer.Etcdraft

open SortedMap List Option Function

structure Consenter where
  clientTlsCert : Bytes
  serverTlsCert : Bytes
deriving DecidableEq

structure BlockMetadata where
  consenterIds : List ℕ
  nextConsenterId : ℕ
  raftIndex : ℕ

abbrev ConsenterMap := SortedMap ℕ Consenter

inductive ConfChangeType where
  | addNode
  | removeNode
deriving DecidableEq

structure RaftConfChange where
  nodeID : ℕ
  type : ConfChangeType
deriving DecidableEq

structure MembershipChanges where
  newBlockMetadata : BlockMetadata
  newConsenters : ConsenterMap
  addedNodes : List Consenter
  removedNodes : List Consenter
  confChange : Option RaftConfChange := none
  rotatedNode : ℕ := 0

def MembershipChanges.rotated (mc : MembershipChanges) : Bool :=
  mc.addedNodes.length = 1 && mc.removedNodes.length = 1

/-- The loop of `MetadataHasDuplication`, with the certificates seen so far. -/
def findDuplicate : List Bytes → List Consenter → Except String Unit
  | _, [] => .ok ()
  | seen, consenter :: rest =>
    if consenter.serverTlsCert ∈ seen ∨ consenter.clientTlsCert ∈ seen then
      .error ("duplicate consenter: server cert: " ++
        printed consenter.serverTlsCert ++ ", client cert: " ++
        printed consenter.clientTlsCert)
    else
      findDuplicate (consenter.clientTlsCert :: consenter.serverTlsCert :: seen) rest

def metadataHasDuplication : Option (List (Option Consenter)) → Except String Unit
  | none => .error "nil metadata"
  | some consenters =>
    if none ∈ consenters then .error "nil consenter in metadata"
    else findDuplicate [] (consenters.filterMap id)

def membershipByCert (consenters : List (ℕ × Consenter)) : Bytes → Option ℕ :=
  consenters.foldl (fun set entry => Function.update set entry.2.clientTlsCert (some entry.1))
    fun _ => none

/-- `ConsentersToMap` and `Exists`. -/
def consenterExists (consenters : List Consenter) (consenter : Consenter) : Bool :=
  consenters.any fun other => other.clientTlsCert = consenter.clientTlsCert

variable (current : Bytes → Option ℕ) (newConsenters conss : List Consenter)

def keptConsenters : ConsenterMap :=
  SortedMap.empty.insertAll (newConsenters.filterMap fun consenter =>
      (current consenter.clientTlsCert).map fun nodeID => (nodeID, consenter))

/-- `ConsenterIds` after the first loop: zero where a node is new. -/
def keptIds : List ℕ :=
  newConsenters.map fun consenter =>
    (current consenter.clientTlsCert).getD 0

def addedEntries : List (Consenter × ℕ) :=
  newConsenters.zipIdx.filter fun entry =>
    (current entry.1.clientTlsCert).isNone

def removedEntries (oldConsenters : List (ℕ × Consenter))
    (newConsenters : List Consenter) : List (ℕ × Consenter) :=
  oldConsenters.filter fun entry => !consenterExists newConsenters entry.2

def computeMembershipChanges (oldMetadata : BlockMetadata)
    (certOrder oldConsenters : List (ℕ × Consenter))
    (newConsenters : List Consenter) : Except String MembershipChanges :=
  let current := membershipByCert certOrder
  let ids := keptIds current newConsenters
  let kept := keptConsenters current newConsenters
  match addedEntries current newConsenters, removedEntries oldConsenters newConsenters with
  | [(added, addedNodeIndex)], [(deletedNodeID, removed)] =>
    .ok
      { newBlockMetadata :=
          { oldMetadata with
            consenterIds := ids.set addedNodeIndex deletedNodeID }
        newConsenters := kept.insert deletedNodeID added
        addedNodes := [added]
        removedNodes := [removed]
        rotatedNode := deletedNodeID }
  | [(added, addedNodeIndex)], [] =>
    let nodeID := oldMetadata.nextConsenterId
    .ok
      { newBlockMetadata :=
          { oldMetadata with
            consenterIds := ids.set addedNodeIndex nodeID
            nextConsenterId := uint64 (nodeID + 1) }
        newConsenters := kept.insert nodeID added
        addedNodes := [added]
        removedNodes := []
        confChange := some { nodeID := nodeID, type := .addNode } }
  | [], [(deletedNodeID, removed)] =>
    .ok
      { newBlockMetadata := { oldMetadata with consenterIds := ids }
        newConsenters := kept.erase deletedNodeID
        addedNodes := []
        removedNodes := [removed]
        confChange := some { nodeID := deletedNodeID, type := .removeNode } }
  | [], [] =>
    .ok
      { newBlockMetadata := { oldMetadata with consenterIds := ids }
        newConsenters := kept
        addedNodes := []
        removedNodes := [] }
  | added, removed =>
    .error ("update of more than one consenter at a time is not supported, " ++
      "requested changes: add " ++ toString added.length ++
      " node(s), remove " ++ toString removed.length ++ " node(s)")

/-- `ConfChange`.  Both loops keep the last id they do not find. -/
def confChange (blockMetadata : BlockMetadata) (voters : List ℕ) : RaftConfChange :=
  if voters.length < blockMetadata.consenterIds.length then
    { type := .addNode
      nodeID := ((blockMetadata.consenterIds.filter (· ∉ voters)).getLast?).getD 0 }
  else
    { type := .removeNode
      nodeID := ((voters.filter (· ∉ blockMetadata.consenterIds)).getLast?).getD 0 }

/-- `getInFlightConfChange` of a chain whose last block is a configuration
block other than the first. -/
def getInFlightConfChange (confChangeInProgress : Option RaftConfChange)
    (blockMetadata : BlockMetadata) (voters : List ℕ) :
    Option RaftConfChange :=
  match confChangeInProgress with
  | some change => some change
  | none =>
    if voters.length = blockMetadata.consenterIds.length then none
    else some (confChange blockMetadata voters)

/-- What a chain keeps: the metadata of its last block and the consenters by
id. -/
structure Membership where
  metadata : BlockMetadata
  consenters : ConsenterMap

/-- The `for` loop of `CreateConsentersMap` at the start of a chain. -/
def createConsentersMap (blockMetadata : BlockMetadata)
    (consenters : List Consenter) : ConsenterMap :=
  SortedMap.empty.insertAll (blockMetadata.consenterIds.zip consenters)

variable (state s : Membership)

/-- A new configuration that both checks accept, with its changes. -/
def Accepts (newConsenters : List Consenter) (changes : MembershipChanges) : Prop :=
  metadataHasDuplication (some (newConsenters.map some)) = .ok () ∧
  ∃ certOrder removalOrder : List (ℕ × Consenter), certOrder.Perm state.consenters.entries ∧
    removalOrder.Perm state.consenters.entries ∧
    computeMembershipChanges state.metadata certOrder removalOrder newConsenters = .ok changes

def MembershipChanges.applied (changes : MembershipChanges) : Membership where
  metadata := changes.newBlockMetadata
  consenters := changes.newConsenters

inductive Updates : Membership → List (List Consenter × MembershipChanges) → Membership → Prop
  | none (state : Membership) : Updates state [] state
  | next {start middle : Membership} {updates : List (List Consenter × MembershipChanges)}
      {newConsenters : List Consenter} {changes : MembershipChanges}
      (before : Updates start updates middle)
      (accepted : Accepts middle newConsenters changes) :
      Updates start (updates ++ [(newConsenters, changes)]) changes.applied

structure Aligned (consenters : List Consenter) : Prop where
  length_eq : state.metadata.consenterIds.length = consenters.length
  ids_nodup : state.metadata.consenterIds.Nodup
  certs_nodup : (consenters.map Consenter.clientTlsCert).Nodup
  ids_lt : ∀ nodeID ∈ state.metadata.consenterIds, nodeID < state.metadata.nextConsenterId
  get_iff : ∀ nodeID consenter,
    state.consenters.get nodeID = some consenter ↔
      (nodeID, consenter) ∈ state.metadata.consenterIds.zip consenters

variable {consenters : List Consenter}

theorem findDuplicate_ok {seen : List Bytes} (hok : findDuplicate seen consenters = .ok ()) :
    (consenters.map Consenter.clientTlsCert).Nodup ∧
      ∀ con ∈ consenters, con.clientTlsCert ∉ seen := by
  induction consenters generalizing seen with
  | nil => simp
  | cons _ _ ih =>
    rw [findDuplicate] at hok
    split at hok
    · cases hok
    rename_i hfr
    obtain ⟨hnd, hn⟩ := ih hok
    rw [not_or] at hfr
    constructor
    · rw [map_cons, nodup_cons]
      refine ⟨?_, hnd⟩
      intro hm
      obtain ⟨other, ho, heq⟩ := mem_map.mp hm
      apply hn other ho
      rw [heq]
      exact mem_cons_self
    · intro other ho
      rcases mem_cons.mp ho with rfl | hrest
      · exact hfr.2
      · intro hsn
        apply hn other hrest
        exact mem_cons_of_mem _ (mem_cons_of_mem _ hsn)

theorem metadataHasDuplication_ok
    (hok : metadataHasDuplication (some (consenters.map some)) = .ok ()) :
    (consenters.map Consenter.clientTlsCert).Nodup := by
  have hlp : findDuplicate [] consenters = .ok () := by
    simpa [metadataHasDuplication, filterMap_map] using hok
  exact (findDuplicate_ok hlp).1

variable {cert : Bytes}

theorem membershipByCert_iff {consenters : List (ℕ × Consenter)}
    (hce : (consenters.map fun e => e.2.clientTlsCert).Nodup) {nodeID : ℕ} :
    membershipByCert consenters cert = some nodeID ↔
      ∃ con, (nodeID, con) ∈ consenters ∧ con.clientTlsCert = cert := by
  induction consenters using List.reverseRecOn with
  | nil => simp [membershipByCert]
  | append_singleton pre e ih =>
    rw [map_append, nodup_append] at hce
    obtain ⟨hp, -, hds⟩ := hce
    have hla : membershipByCert (pre ++ [e]) =
        Function.update (membershipByCert pre) e.2.clientTlsCert (some e.1) := by
      simp [membershipByCert]
    rw [hla, update_apply]
    split
    next hcr =>
      constructor
      · intro hid
        cases hid
        exact ⟨e.2, by simp, hcr.symm⟩
      rintro ⟨_, hm, heq⟩
      rcases mem_append.mp hm with hl | hnew
      · exact absurd (heq.trans hcr) (hds _ (mem_map_of_mem hl) _ (by simp))
      · rw [mem_singleton] at hnew
        rw [← hnew]
    next hcr =>
      rw [ih hp]
      constructor
      · rintro ⟨con, hm, heq⟩
        exact ⟨con, mem_append_left _ hm, heq⟩
      rintro ⟨con, hm, heq⟩
      rcases mem_append.mp hm with hl | hnew
      · exact ⟨con, hl, heq⟩
      · rw [mem_singleton] at hnew
        rw [← hnew] at hcr
        exact absurd heq.symm hcr

def Holds (nodeID : ℕ) (cert : Bytes) : Prop :=
  ∃ consenter, state.consenters.get nodeID = some consenter ∧ consenter.clientTlsCert = cert

variable {first second : Bytes}

theorem Holds.unique {s : Membership}
    {nodeID : ℕ} (hf : Holds s nodeID first) (hs : Holds s nodeID second) : first = second := by
  obtain ⟨_, hn, rfl⟩ := hf
  obtain ⟨_, ht, rfl⟩ := hs
  rw [hn] at ht
  cases ht
  rfl

theorem zip_map_self {α β : Type} (give : α → β) (its : List α) :
    (its.map give).zip its = its.map fun it => (give it, it) := by
  induction its with
  | nil => rfl
  | cons _ _ ih => simp [ih]

namespace Aligned

variable {s : Membership} {consenters : List Consenter} (hal : Aligned s consenters)

include hal

theorem eq_of_same_cert
    {first second : ℕ × Consenter} (hf : first ∈ s.metadata.consenterIds.zip consenters)
    (hc : second ∈ s.metadata.consenterIds.zip consenters)
    (hcr : first.2.clientTlsCert = second.2.clientTlsCert) : first = second := by
  have hs : (s.metadata.consenterIds.zip consenters).map Prod.snd =
      consenters := map_snd_zip hal.length_eq.ge
  have hnd : ((s.metadata.consenterIds.zip consenters).map fun e => e.2.clientTlsCert).Nodup := by
    have hce := hal.certs_nodup
    rw [← hs, List.map_map] at hce
    exact hce
  exact inj_on_of_nodup_map hnd hf hc hcr

variable {nodeID : ℕ}

theorem mem_ids_iff :
    nodeID ∈ s.metadata.consenterIds ↔ ∃ con, s.consenters.get nodeID = some con := by
  have hf : (s.metadata.consenterIds.zip consenters).map Prod.fst =
      s.metadata.consenterIds := map_fst_zip hal.length_eq.le
  constructor
  · intro hm
    rw [← hf] at hm
    obtain ⟨e, he, rfl⟩ := mem_map.mp hm
    exact ⟨e.2, (hal.get_iff _ _).mpr he⟩
  · rintro ⟨_, hg⟩
    rw [← hf]
    exact mem_map_of_mem ((hal.get_iff _ _).mp hg)

theorem mem_ids_of_holds (hhl : Holds s nodeID cert) : nodeID ∈ s.metadata.consenterIds := by
  obtain ⟨con, hg, -⟩ := hhl
  exact hal.mem_ids_iff.mpr ⟨con, hg⟩

theorem membershipByCert_iff_holds {order : List (ℕ × Consenter)}
    (hor : order.Perm s.consenters.entries) :
    membershipByCert order cert = some nodeID ↔ Holds s nodeID cert := by
  have hce : (order.map fun e => e.2.clientTlsCert).Nodup := by
    rw [(hor.map _).nodup_iff]
    apply List.Nodup.map_on
    · intro _ hf _ hs hcr
      rw [← get_eq_some_iff, hal.get_iff] at hf hs
      exact hal.eq_of_same_cert hf hs hcr
    · exact s.consenters.sorted.imp fun {first second} hless heq => by
        rw [heq] at hless
        exact lt_irrefl _ hless
  rw [membershipByCert_iff hce]
  simp only [Holds, hor.mem_iff, get_eq_some_iff]

end Aligned

/-! ## The ids an update gives out -/

section Assignment

variable {current : Bytes → Option ℕ} {newConsenters conss : List Consenter}

/-- The id of a consenter after an update that has `fresh` for a new one. -/
def assign (current : Bytes → Option ℕ) (fresh : ℕ) (consenter : Consenter) : ℕ :=
  (current consenter.clientTlsCert).getD fresh

variable {added : Consenter} {index : ℕ}

theorem mem_addedEntries :
    (added, index) ∈ addedEntries current conss ↔
      conss[index]? = some added ∧ current added.clientTlsCert = none := by
  simp [addedEntries, mem_zipIdx_iff_getElem?]

theorem added_of_singleton (ha : addedEntries current conss = [(added, index)]) :
    conss[index]? = some added ∧ current added.clientTlsCert = none := by
  rw [← mem_addedEntries, ha]
  exact mem_cons_self

theorem set_keptIds (ha : addedEntries current conss = [(added, index)]) (fr : ℕ) :
    (keptIds current conss).set index fr = conss.map (assign current fr) := by
  obtain ⟨hg, hn⟩ := added_of_singleton ha
  apply ext_getElem?
  intro position
  rw [List.getElem?_set]
  split
  next hp =>
    subst hp
    obtain ⟨hbn, hval⟩ := List.getElem?_eq_some_iff.mp hg
    simp [keptIds, hbn, assign, hval, hn]
  rename_i hp
  simp only [keptIds, List.getElem?_map]
  rcases ho : conss[position]? with _ | other
  · rfl
  rcases hkn : current other.clientTlsCert with _ | _
  · have hag := mem_addedEntries.mpr ⟨ho, hkn⟩
    rw [ha, mem_singleton, Prod.mk.injEq] at hag
    exact absurd hag.2.symm hp
  · simp [assign, hkn]

variable {con : Consenter}

theorem eq_added (ha : addedEntries current conss = [(added, index)])
    (hm : con ∈ conss) (hn : current con.clientTlsCert = none) : con = added := by
  obtain ⟨_, hp⟩ := mem_iff_getElem?.mp hm
  have he := mem_addedEntries.mpr ⟨hp, hn⟩
  rw [ha, mem_singleton, Prod.mk.injEq] at he
  exact he.1

theorem known_of_no_added (ha : addedEntries current conss = []) (hm : con ∈ conss) :
    current con.clientTlsCert ≠ none := by
  intro hn
  obtain ⟨_, hp⟩ := mem_iff_getElem?.mp hm
  have he := mem_addedEntries.mpr ⟨hp, hn⟩
  rw [ha] at he
  cases he

theorem keptIds_of_no_added (ha : addedEntries current conss = []) (fr : ℕ) :
    keptIds current conss = conss.map (assign current fr) := by
  apply map_congr_left
  intro con hm
  rcases hkn : current con.clientTlsCert with _ | _
  · exact absurd hkn (known_of_no_added ha hm)
  · simp [assign, hkn]

structure GivesIds (current : Bytes → Option ℕ) (fresh : ℕ)
    (newConsenters : List Consenter) (changes : MembershipChanges) : Prop where
  ids : changes.newBlockMetadata.consenterIds = newConsenters.map (assign current fresh)
  get_iff : ∀ nodeID consenter,
    changes.newConsenters.get nodeID = some consenter ↔
      consenter ∈ newConsenters ∧ assign current fresh consenter = nodeID
  inj : ∀ first ∈ newConsenters, ∀ second ∈ newConsenters,
    assign current fresh first = assign current fresh second → first = second

section Injective

variable (hinj : ∀ {first second nodeID}, current first = some nodeID →
    current second = some nodeID → first = second)
  (hce : (conss.map Consenter.clientTlsCert).Nodup)

include hinj hce

theorem get_keptConsenters {nodeID : ℕ} :
    (keptConsenters current conss).get nodeID = some con ↔
      con ∈ conss ∧ current con.clientTlsCert = some nodeID := by
  have hky : ((conss.filterMap fun con =>
      (current con.clientTlsCert).map fun nodeID => (nodeID, con)).map Prod.fst).Nodup := by
    have hd : (conss.filterMap fun con =>
        (current con.clientTlsCert).map fun nodeID => (nodeID, con)).map Prod.fst =
        (conss.map Consenter.clientTlsCert).filterMap current := by
      rw [map_filterMap, filterMap_map]
      congr 1
      funext con
      simp [comp_def]
    rw [hd]
    exact hce.filterMap fun first second nodeID hf hs =>
      hinj hf hs
  rw [keptConsenters, get_insertAll_iff hky]
  simp only [get_empty, reduceCtorEq, and_false, or_false,
    mem_filterMap, map_eq_some_iff, Prod.mk.injEq]
  constructor
  · rintro ⟨_, hm, _, hg, rfl, rfl⟩
    exact ⟨hm, hg⟩
  · rintro ⟨hm, hg⟩
    exact ⟨con, hm, nodeID, hg, rfl, rfl⟩

theorem assign_inj_of_known
    {fr : ℕ} {first second : Consenter} (hf : first ∈ conss) (hs : second ∈ conss)
    (hfr : current first.clientTlsCert ≠ none) (hsc : current second.clientTlsCert ≠ none)
    (heq : assign current fr first = assign current fr second) : first = second := by
  obtain ⟨_, hn⟩ := ne_none_iff_exists'.mp hfr
  obtain ⟨_, ht⟩ := ne_none_iff_exists'.mp hsc
  simp only [assign, hn, ht, getD_some] at heq
  subst heq
  exact inj_on_of_nodup_map hce hf hs (hinj hn ht)

variable {changes : MembershipChanges}

theorem givesIds_of_no_added (ha : addedEntries current conss = [])
    (hd : changes.newBlockMetadata.consenterIds = keptIds current conss)
    (hg : ∀ nodeID, changes.newConsenters.get nodeID =
      (keptConsenters current conss).get nodeID) (fr : ℕ) :
    GivesIds current fr conss changes where
  ids := hd.trans (keptIds_of_no_added ha fr)
  get_iff := by
    intro _ _
    rw [hg, get_keptConsenters hinj hce]
    apply and_congr_right
    intro hm
    obtain ⟨_, hkn⟩ := ne_none_iff_exists'.mp (known_of_no_added ha hm)
    simp [assign, hkn]
  inj := by
    intro _ hf _ hs
    exact assign_inj_of_known hinj hce hf hs (known_of_no_added ha hf) (known_of_no_added ha hs)

theorem givesIds_of_added {index fresh : ℕ} (ha : addedEntries current conss = [(added, index)])
    (hfr : ∀ con ∈ conss, current con.clientTlsCert ≠ some fresh)
    (hd : changes.newBlockMetadata.consenterIds = (keptIds current conss).set index fresh)
    (hmap : changes.newConsenters = (keptConsenters current conss).insert fresh added) :
    GivesIds current fresh conss changes := by
  obtain ⟨hp, hk⟩ := added_of_singleton ha
  have hme := mem_of_getElem? hp
  have has : assign current fresh added = fresh := by
    simp [assign, hk]
  have hkn : ∀ con ∈ conss, con ≠ added →
      ∃ nodeID, current con.clientTlsCert = some nodeID ∧ nodeID ≠ fresh := by
    intro con hm ho
    rcases hc : current con.clientTlsCert with _ | nodeID
    · exact absurd (eq_added ha hm hc) ho
    · refine ⟨nodeID, rfl, ?_⟩
      rintro rfl
      exact hfr con hm hc
  refine ⟨hd.trans (set_keptIds ha fresh), ?_, ?_⟩
  · intro _ con
    rw [hmap, get_insert]
    split
    next hnd =>
      subst hnd
      constructor
      · rintro ⟨⟩
        exact ⟨hme, has⟩
      rintro ⟨hm, hg⟩
      by_contra ho
      obtain ⟨_, hc, hne⟩ := hkn con hm fun heq => ho (congrArg some heq.symm)
      exact hne (by simpa [assign, hc] using hg)
    next hnd =>
      rw [get_keptConsenters hinj hce]
      apply and_congr_right
      intro hm
      rcases hc : current con.clientTlsCert with _ | _
      · simp [assign, hc, Ne.symm hnd]
      · simp [assign, hc]
  · intro first hf second hs heq
    by_cases hn : first = added
    · subst hn
      by_contra ht
      obtain ⟨_, hc, hne⟩ := hkn second hs (Ne.symm ht)
      rw [has] at heq
      exact hne (by simpa [assign, hc] using heq.symm)
    by_cases ht : second = added
    · subst ht
      obtain ⟨_, hc, hne⟩ := hkn first hf hn
      rw [has] at heq
      exact absurd (by simpa [assign, hc] using heq) hne
    · obtain ⟨_, _, -⟩ := hkn first hf hn
      obtain ⟨_, _, -⟩ := hkn second hs ht
      exact assign_inj_of_known hinj hce hf hs (by simp [*]) (by simp [*]) heq

end Injective

end Assignment

/-! ## The four kinds of update -/

inductive UpdateKind (state : Membership) (newConsenters : List Consenter)
    (current : Bytes → Option ℕ) (changes : MembershipChanges) : Prop
  | rotation (added : Consenter) (nodeID : ℕ)
      (given : GivesIds current nodeID newConsenters changes)
      (joins : added ∈ newConsenters)
      (unknown : current added.clientTlsCert = none)
      (held : ∃ consenter, state.consenters.get nodeID = some consenter)
      (leaves : ∀ other consenter, state.consenters.get other = some consenter →
        (consenterExists newConsenters consenter = false ↔ other = nodeID))
      (rotated : changes.rotated = true)
      (node : changes.rotatedNode = nodeID)
      (change : changes.confChange = none)
      (next : changes.newBlockMetadata.nextConsenterId = state.metadata.nextConsenterId)
  | addition (added : Consenter)
      (given : GivesIds current state.metadata.nextConsenterId newConsenters changes)
      (joins : added ∈ newConsenters)
      (unknown : current added.clientTlsCert = none)
      (stays : ∀ other consenter, state.consenters.get other = some consenter →
        consenterExists newConsenters consenter = true)
      (change : changes.confChange =
        some { nodeID := state.metadata.nextConsenterId, type := .addNode })
      (next : changes.newBlockMetadata.nextConsenterId =
        uint64 (state.metadata.nextConsenterId + 1))
  | removal (nodeID : ℕ) (given : ∀ fresh, GivesIds current fresh newConsenters changes)
      (known : ∀ consenter ∈ newConsenters, current consenter.clientTlsCert ≠ none)
      (held : ∃ consenter, state.consenters.get nodeID = some consenter)
      (leaves : ∀ other consenter, state.consenters.get other = some consenter →
        (consenterExists newConsenters consenter = false ↔ other = nodeID))
      (change : changes.confChange = some { nodeID := nodeID, type := .removeNode })
      (next : changes.newBlockMetadata.nextConsenterId = state.metadata.nextConsenterId)
  | unchanged (given : ∀ fresh, GivesIds current fresh newConsenters changes)
      (known : ∀ consenter ∈ newConsenters, current consenter.clientTlsCert ≠ none)
      (stays : ∀ other consenter, state.consenters.get other = some consenter →
        consenterExists newConsenters consenter = true)
      (change : changes.confChange = none)
      (next : changes.newBlockMetadata.nextConsenterId = state.metadata.nextConsenterId)

section Kinds

variable {s : Membership} {order : List (ℕ × Consenter)}
  {conss : List Consenter} {nodeID : ℕ} {con : Consenter}

section

variable (hor : order.Perm s.consenters.entries)

include hor

theorem mem_removedEntries :
    (nodeID, con) ∈ removedEntries order conss ↔
      s.consenters.get nodeID = some con ∧ consenterExists conss con = false := by
  simp [removedEntries, hor.mem_iff, get_eq_some_iff]

theorem leaves_of_removedEntries
    {rm : Consenter} (hr : removedEntries order conss = [(nodeID, rm)]) :
    s.consenters.get nodeID = some rm ∧ consenterExists conss rm = false ∧
      ∀ other con, s.consenters.get other = some con →
        (consenterExists conss con = false ↔ other = nodeID) := by
  have he : (nodeID, rm) ∈ removedEntries order conss := by
    rw [hr]
    exact mem_cons_self
  obtain ⟨hg, hgn⟩ := (mem_removedEntries hor).mp he
  refine ⟨hg, hgn, ?_⟩
  intro _ _ ho
  constructor
  · intro hl
    have hag := (mem_removedEntries hor).mpr ⟨ho, hl⟩
    rw [hr, mem_singleton, Prod.mk.injEq] at hag
    exact hag.1
  · rintro rfl
    rw [hg] at ho
    cases ho
    exact hgn

theorem stays_of_no_removed (hr : removedEntries order conss = [])
    {other : ℕ} (hg : s.consenters.get other = some con) : consenterExists conss con = true := by
  by_contra hgn
  rw [Bool.not_eq_true] at hgn
  have he := (mem_removedEntries hor).mpr ⟨hg, hgn⟩
  rw [hr] at he
  cases he

end

theorem consenterExists_iff :
    consenterExists conss con = true ↔
      ∃ other ∈ conss, other.clientTlsCert = con.clientTlsCert := by
  simp [consenterExists]

theorem current_ne_of_leaves {current : Bytes → Option ℕ}
    (hc : ∀ cert nodeID, current cert = some nodeID ↔ Holds s nodeID cert) {rm : Consenter}
    (hg : s.consenters.get nodeID = some rm) (hgn : consenterExists conss rm = false)
    (hm : con ∈ conss) : current con.clientTlsCert ≠ some nodeID := by
  intro hsm
  obtain ⟨_, ho, hcr⟩ := (hc _ _).mp hsm
  rw [hg] at ho
  cases ho
  have hst := consenterExists_iff.mpr ⟨con, hm, hcr.symm⟩
  rw [hgn] at hst
  cases hst

theorem Accepts.kind {consenters : List Consenter}
    {changes : MembershipChanges} (hal : Aligned s consenters) (hacc : Accepts s conss changes) :
    ∃ current : Bytes → Option ℕ,
      (∀ cert nodeID, current cert = some nodeID ↔ Holds s nodeID cert) ∧
        UpdateKind s conss current changes := by
  obtain ⟨hh, certOrder, _, hcr, hor, hcm⟩ := hacc
  have hce := metadataHasDuplication_ok hh
  have hc : ∀ cert nodeID, membershipByCert certOrder cert = some nodeID ↔ Holds s nodeID cert :=
    fun cert nodeID => hal.membershipByCert_iff_holds hcr
  refine ⟨membershipByCert certOrder, hc, ?_⟩
  unfold computeMembershipChanges at hcm
  dsimp only at hcm
  generalize membershipByCert certOrder = current at hc hcm
  have hinj : ∀ {first second nodeID}, current first = some nodeID →
      current second = some nodeID → first = second := by
    intro _ _ _ hf hs
    exact ((hc _ _).mp hf).unique ((hc _ _).mp hs)
  split at hcm
  next added _ nodeID rm ha hr =>
    obtain ⟨hg, hgn, hl⟩ := leaves_of_removedEntries hor hr
    obtain ⟨hp, hn⟩ := added_of_singleton ha
    cases hcm
    exact .rotation added nodeID
      (givesIds_of_added hinj hce ha (fun _ => current_ne_of_leaves hc hg hgn) rfl rfl)
      (mem_of_getElem? hp) hn ⟨rm, hg⟩ hl rfl rfl rfl rfl
  next added _ ha hr =>
    obtain ⟨hp, hn⟩ := added_of_singleton ha
    have hfr : ∀ con ∈ conss, current con.clientTlsCert ≠ some s.metadata.nextConsenterId := by
      intro _ _ hsm
      have hid := hal.mem_ids_of_holds ((hc _ _).mp hsm)
      exact lt_irrefl _ (hal.ids_lt _ hid)
    cases hcm
    exact .addition added (givesIds_of_added hinj hce ha hfr rfl rfl) (mem_of_getElem? hp) hn
      (fun _ _ => stays_of_no_removed hor hr) rfl rfl
  next nodeID rm ha hr =>
    obtain ⟨hg, hgn, hl⟩ := leaves_of_removedEntries hor hr
    cases hcm
    refine .removal nodeID (fun fr => givesIds_of_no_added hinj hce ha rfl ?_ fr)
      (fun _ => known_of_no_added ha) ⟨rm, hg⟩ hl rfl rfl
    intro other
    rw [get_erase]
    split
    next ho =>
      subst ho
      symm
      rw [eq_none_iff_forall_ne_some]
      intro _ hkp
      rw [get_keptConsenters hinj hce] at hkp
      exact current_ne_of_leaves hc hg hgn hkp.1 hkp.2
    · rfl
  next ha hr =>
    cases hcm
    exact .unchanged (fun fr => givesIds_of_no_added hinj hce ha rfl (fun _ => rfl) fr)
      (fun _ => known_of_no_added ha) (fun _ _ => stays_of_no_removed hor hr) rfl rfl
  · cases hcm

end Kinds

/-! ## One update -/

open MembershipChanges

section Step

variable {s : Membership} {consenters conss : List Consenter}
  {current : Bytes → Option ℕ} {changes : MembershipChanges}

theorem UpdateKind.givesIds (hkn : UpdateKind s conss current changes) :
    ∃ fr, GivesIds current fr conss changes := by
  cases hkn with
  | rotation _ nodeID given => exact ⟨nodeID, given⟩
  | addition _ given => exact ⟨_, given⟩
  | removal nodeID given | unchanged given => exact ⟨0, given 0⟩

theorem GivesIds.nodup {fr : ℕ} (hgv : GivesIds current fr conss changes)
    (hce : (conss.map Consenter.clientTlsCert).Nodup) :
    changes.newBlockMetadata.consenterIds.Nodup := by
  rw [hgv.ids]
  exact (List.Nodup.of_map _ hce).map_on hgv.inj

theorem GivesIds.zip_iff {fr : ℕ}
    (hgv : GivesIds current fr conss changes) (nodeID : ℕ) (con : Consenter) :
    changes.newConsenters.get nodeID = some con ↔
      (nodeID, con) ∈ changes.newBlockMetadata.consenterIds.zip conss := by
  rw [hgv.get_iff, hgv.ids, zip_map_self, List.mem_map]
  constructor
  · rintro ⟨hm, rfl⟩
    exact ⟨con, hm, rfl⟩
  · rintro ⟨_, hm, heq⟩
    cases heq
    exact ⟨hm, rfl⟩

theorem GivesIds.mem_ids {fr nodeID : ℕ} (hgv : GivesIds current fr conss changes) :
    nodeID ∈ changes.newBlockMetadata.consenterIds ↔
      (∃ con ∈ conss, current con.clientTlsCert = some nodeID) ∨
      nodeID = fr ∧ ∃ con ∈ conss, current con.clientTlsCert = none := by
  rw [hgv.ids, List.mem_map]
  constructor
  · rintro ⟨con, hm, rfl⟩
    rcases hc : current con.clientTlsCert with _ | _
    · right
      exact ⟨by simp [assign, hc], con, hm, hc⟩
    · left
      exact ⟨con, hm, by simp [assign, hc]⟩
  · rintro (⟨con, hm, hc⟩ | ⟨rfl, con, hm, hc⟩) <;>
      exact ⟨con, hm, by simp [assign, hc]⟩

variable {nodeID : ℕ}

theorem stays_iff (hc : ∀ cert nodeID, current cert = some nodeID ↔ Holds s nodeID cert) :
    (∃ con ∈ conss, current con.clientTlsCert = some nodeID) ↔
      ∃ con, s.consenters.get nodeID = some con ∧ consenterExists conss con = true := by
  constructor
  · rintro ⟨con, hm, hsm⟩
    obtain ⟨old, hg, hcr⟩ := (hc _ _).mp hsm
    exact ⟨old, hg, consenterExists_iff.mpr ⟨con, hm, hcr.symm⟩⟩
  · rintro ⟨old, hg, hx⟩
    obtain ⟨con, hm, hcr⟩ := consenterExists_iff.mp hx
    exact ⟨con, hm, (hc _ _).mpr ⟨old, hg, hcr.symm⟩⟩

theorem ids_after (hal : Aligned s consenters)
    (hc : ∀ cert nodeID, current cert = some nodeID ↔ Holds s nodeID cert)
    (hkn : UpdateKind s conss current changes) (nodeID : ℕ) :
    nodeID ∈ changes.newBlockMetadata.consenterIds ↔
      match changes.confChange with
      | none => nodeID ∈ s.metadata.consenterIds
      | some { nodeID := changed, type := .addNode } =>
        nodeID = changed ∨ nodeID ∈ s.metadata.consenterIds
      | some { nodeID := changed, type := .removeNode } =>
        nodeID ≠ changed ∧ nodeID ∈ s.metadata.consenterIds := by
  cases hkn with
  | rotation added _ given joins unknown held leaves _ _ ch =>
    rw [ch, given.mem_ids, stays_iff hc, hal.mem_ids_iff]
    constructor
    · rintro (⟨con, hg, -⟩ | ⟨rfl, -⟩)
      · exact ⟨con, hg⟩
      · exact held
    rintro ⟨con, hg⟩
    by_cases hx : consenterExists conss con = true
    · exact .inl ⟨con, hg, hx⟩
    · rw [Bool.not_eq_true] at hx
      exact .inr ⟨(leaves _ _ hg).mp hx, added, joins, unknown⟩
  | addition added given joins unknown stays ch =>
    rw [ch, given.mem_ids, stays_iff hc, hal.mem_ids_iff]
    constructor
    · rintro (⟨con, hg, -⟩ | ⟨hfr, -⟩)
      · exact .inr ⟨con, hg⟩
      · exact .inl hfr
    · rintro (hfr | ⟨con, hg⟩)
      · exact .inr ⟨hfr, added, joins, unknown⟩
      · exact .inl ⟨con, hg, stays _ _ hg⟩
  | removal _ given known _ leaves ch =>
    rw [ch, (given 0).mem_ids, stays_iff hc, hal.mem_ids_iff]
    constructor
    · rintro (⟨con, hg, hx⟩ | ⟨-, con, hm, hno⟩)
      · refine ⟨?_, con, hg⟩
        intro heq
        rw [(leaves _ _ hg).mpr heq] at hx
        cases hx
      · exact absurd hno (known con hm)
    · rintro ⟨ho, con, hg⟩
      refine .inl ⟨con, hg, ?_⟩
      by_contra hx
      rw [Bool.not_eq_true] at hx
      exact ho ((leaves _ _ hg).mp hx)
  | unchanged given known stays ch =>
    rw [ch, (given 0).mem_ids, stays_iff hc, hal.mem_ids_iff]
    constructor
    · rintro (⟨con, hg, -⟩ | ⟨-, con, hm, hno⟩)
      · exact ⟨con, hg⟩
      · exact absurd hno (known con hm)
    · rintro ⟨con, hg⟩
      exact .inl ⟨con, hg, stays _ _ hg⟩

theorem confChange_added (hkn : UpdateKind s conss current changes)
    (hc : changes.confChange = some { nodeID := nodeID, type := .addNode }) :
    nodeID = s.metadata.nextConsenterId := by
  cases hkn with
  | rotation _ _ _ _ _ _ _ _ _ ch =>
    simp [ch] at hc
  | addition _ _ _ _ _ ch =>
    rw [ch] at hc
    cases hc
    rfl
  | removal _ _ _ _ _ ch => simp [ch] at hc
  | unchanged _ _ _ ch => simp [ch] at hc

theorem confChange_held (hal : Aligned s consenters) (hkn : UpdateKind s conss current changes)
    (hc : changes.confChange = some { nodeID := nodeID, type := .removeNode }) :
    nodeID ∈ s.metadata.consenterIds := by
  cases hkn with
  | rotation _ _ _ _ _ _ _ _ _ ch =>
    simp [ch] at hc
  | addition _ _ _ _ _ ch => simp [ch] at hc
  | removal _ _ _ held _ ch =>
    rw [ch] at hc
    cases hc
    exact hal.mem_ids_iff.mpr held
  | unchanged _ _ _ ch => simp [ch] at hc

def MembershipChanges.adds (changes : MembershipChanges) : Bool :=
  match changes.confChange with
  | some change => change.type = .addNode
  | none => false

theorem getLast_filter_of_perm {longer shorter : List ℕ} {extra : ℕ}
    (hpr : longer.Perm (extra :: shorter)) (hex : extra ∉ shorter) :
    ((longer.filter (· ∉ shorter)).getLast?).getD 0 = extra := by
  have hf : (longer.filter (· ∉ shorter)).Perm [extra] := by
    have hc := hpr.filter (fun it => decide (it ∉ shorter))
    have hno : shorter.filter (fun it => decide (it ∉ shorter)) = [] := by
      simp
    rw [filter_cons, if_pos (by simpa using hex), hno] at hc
    exact hc
  rw [perm_singleton.mp hf]
  rfl

section Accepted

variable (hal : Aligned s consenters) (hacc : Accepts s conss changes)

include hal hacc

theorem confChange_pending {voters : List ℕ} (hv : voters.Perm s.metadata.consenterIds) :
    getInFlightConfChange none changes.newBlockMetadata voters = changes.confChange ∧
      ∀ change, changes.confChange = some change →
        confChange changes.newBlockMetadata voters = change := by
  obtain ⟨_, hr, hkn⟩ := hacc.kind hal
  have hce := metadataHasDuplication_ok hacc.1
  obtain ⟨_, hgv⟩ := hkn.givesIds
  have hnd := hgv.nodup hce
  have hvt := hv.nodup_iff.mpr hal.ids_nodup
  have haf := ids_after hal hr hkn
  rcases hc : changes.confChange with _ | ⟨nodeID, type⟩
  · rw [hc] at haf
    have hpr : changes.newBlockMetadata.consenterIds.Perm voters := by
      rw [perm_ext_iff_of_nodup hnd hvt]
      intro nodeID
      rw [haf nodeID, hv.mem_iff]
    simp [getInFlightConfChange, hpr.length_eq]
  rw [hc] at haf
  suffices hpend : confChange changes.newBlockMetadata voters =
        { nodeID := nodeID, type := type } ∧
      voters.length ≠ changes.newBlockMetadata.consenterIds.length by
    refine ⟨?_, ?_⟩
    · rw [getInFlightConfChange, if_neg hpend.2, hpend.1]
    · rintro _ ⟨⟩
      exact hpend.1
  cases type with
  | addNode =>
    have hfr : nodeID ∉ voters := by
      rw [hv.mem_iff, confChange_added hkn hc]
      exact fun hm => lt_irrefl _ (hal.ids_lt _ hm)
    have hpr : changes.newBlockMetadata.consenterIds.Perm (nodeID :: voters) := by
      rw [perm_ext_iff_of_nodup hnd (nodup_cons.mpr ⟨hfr, hvt⟩)]
      intro other
      rw [haf other, mem_cons, hv.mem_iff]
    have hl := hpr.length_eq
    rw [length_cons] at hl
    refine ⟨?_, by omega⟩
    rw [confChange, if_pos (by omega)]
    congr 1
    exact getLast_filter_of_perm hpr hfr
  | removeNode =>
    have hhl := confChange_held hal hkn hc
    have hgn : nodeID ∉ changes.newBlockMetadata.consenterIds := by
      rw [haf nodeID]
      exact fun hst => hst.1 rfl
    have hpr : voters.Perm (nodeID :: changes.newBlockMetadata.consenterIds) := by
      rw [perm_ext_iff_of_nodup hvt (nodup_cons.mpr ⟨hgn, hnd⟩)]
      intro other
      rw [mem_cons, haf other, hv.mem_iff]
      by_cases ho : other = nodeID
      · simp [ho, hhl]
      · simp [ho]
    have hl := hpr.length_eq
    rw [length_cons] at hl
    refine ⟨?_, by omega⟩
    rw [confChange, if_neg (by omega)]
    congr 1
    exact getLast_filter_of_perm hpr hgn

theorem holds_of_stays (hhl : Holds s nodeID cert)
    (hst : cert ∈ conss.map Consenter.clientTlsCert) : Holds changes.applied nodeID cert := by
  obtain ⟨current, hc, hki⟩ := hacc.kind hal
  obtain ⟨_, hgv⟩ := hki.givesIds
  obtain ⟨con, hm, hcr⟩ := mem_map.mp hst
  have hkn : current con.clientTlsCert = some nodeID := by
    rw [hcr]
    exact (hc _ _).mpr hhl
  exact ⟨con, (hgv.get_iff _ _).mpr ⟨hm, by simp [assign, hkn]⟩, hcr⟩

theorem holds_before (hhl : Holds changes.applied nodeID cert) :
    Holds s nodeID cert ∨ (changes.rotated = true ∧ changes.rotatedNode = nodeID) ∨
      nodeID = s.metadata.nextConsenterId := by
  obtain ⟨current, hc, hki⟩ := hacc.kind hal
  obtain ⟨con, hg, rfl⟩ := hhl
  have hkp : ∀ fr, GivesIds current fr conss changes →
      Holds s nodeID con.clientTlsCert ∨
        current con.clientTlsCert = none ∧ nodeID = fr ∧ con ∈ conss := by
    intro _ hgv
    obtain ⟨hm, hs⟩ := (hgv.get_iff _ _).mp hg
    rcases hkn : current con.clientTlsCert with _ | _
    · exact .inr ⟨rfl, by simpa [assign, hkn] using hs.symm, hm⟩
    · left
      rw [← hc, hkn, ← hs]
      simp [assign, hkn]
  cases hki with
  | rotation _ rotatedID given _ _ _ _ rotated node =>
    rcases hkp rotatedID given with hold | ⟨-, hfr, -⟩
    · exact .inl hold
    · exact .inr (.inl ⟨rotated, node.trans hfr.symm⟩)
  | addition _ given =>
    rcases hkp _ given with hold | ⟨-, hfr, -⟩
    · exact .inl hold
    · exact .inr (.inr hfr)
  | removal removedID given known | unchanged given known =>
    rcases hkp 0 (given 0) with hold | ⟨hno, -, hm⟩
    · exact .inl hold
    · exact absurd hno (known con hm)

variable (hroom : s.metadata.nextConsenterId + (if changes.adds then 1 else 0) < 2 ^ 64)

include hroom

theorem nextConsenterId_after :
    changes.newBlockMetadata.nextConsenterId =
      s.metadata.nextConsenterId + (if changes.adds then 1 else 0) := by
  obtain ⟨_, _, hkn⟩ := hacc.kind hal
  cases hkn with
  | rotation added rotatedID given joins unknown held leaves rotated node
      ch next => simpa [adds, ch] using next
  | addition _ _ _ _ _ ch next =>
    simp only [adds, ch, decide_true, if_true] at hroom ⊢
    rw [next, uint64_of_lt hroom]
  | removal _ _ _ _ _ ch next =>
    simpa [adds, ch] using next
  | unchanged _ _ _ ch next => simpa [adds, ch] using next

theorem aligned_applied : Aligned changes.applied conss := by
  obtain ⟨_, hr, hkn⟩ := hacc.kind hal
  have hce := metadataHasDuplication_ok hacc.1
  have hnx := nextConsenterId_after hal hacc hroom
  have haf := ids_after hal hr hkn
  obtain ⟨_, hgv⟩ := hkn.givesIds
  refine ⟨?_, hgv.nodup hce, hce, ?_, hgv.zip_iff⟩
  · simp [applied, hgv.ids]
  intro nodeID hm
  change nodeID < changes.newBlockMetadata.nextConsenterId
  rcases hc : changes.confChange with _ | ⟨_, type⟩
  · have hl := (haf nodeID).mp hm
    rw [hc] at hl
    have := hal.ids_lt nodeID hl
    omega
  have hl := (haf nodeID).mp hm
  rw [hc] at hl
  cases type with
  | addNode =>
    have had : changes.adds = true := by
      simp [adds, hc]
    rw [had, if_pos rfl] at hnx
    rcases hl with rfl | hl
    · have := confChange_added hkn hc
      omega
    · have := hal.ids_lt nodeID hl
      omega
  | removeNode =>
    have := hal.ids_lt nodeID hl.2
    omega

end Accepted

end Step

variable (updates : List (List Consenter × MembershipChanges))

def additions : ℕ :=
  updates.countP fun update => update.2.adds

def configured (consenters : List Consenter)
    (updates : List (List Consenter × MembershipChanges)) : List Consenter :=
  (updates.getLast?.map Prod.fst).getD consenters

theorem Updates.append {start md final : Membership}
    {early late : List (List Consenter × MembershipChanges)} (hea : Updates start early md)
    (hlt : Updates md late final) : Updates start (early ++ late) final := by
  induction hlt with
  | none => simpa using hea
  | next _ accepted ih =>
    rw [← append_assoc]
    exact .next ih accepted

theorem additions_snoc (conss : List Consenter) (changes : MembershipChanges) :
    additions (updates ++ [(conss, changes)]) =
      additions updates + (if changes.adds then 1 else 0) := by
  simp [additions, countP_append, countP_singleton]

theorem aligned_updates {start fn : Membership}
    {updates : List (List Consenter × MembershipChanges)} (hal : Aligned start consenters)
    (hu : Updates start updates fn)
    (hroom : start.metadata.nextConsenterId + additions updates < 2 ^ 64) :
    Aligned fn (configured consenters updates) ∧
      fn.metadata.nextConsenterId = start.metadata.nextConsenterId + additions updates := by
  induction hu with
  | none => exact ⟨hal, rfl⟩
  | next _ accepted ih =>
    rw [additions_snoc] at hroom ⊢
    obtain ⟨hm, hnx⟩ := ih (by omega)
    have hstep := aligned_applied hm accepted (by omega)
    have haf := nextConsenterId_after hm accepted (by omega)
    refine ⟨?_, ?_⟩
    · simpa [configured] using hstep
    · rw [← add_assoc, ← hnx]
      exact haf

theorem rotated_of_holds {md fn : Membership}
    {late : List (List Consenter × MembershipChanges)} (hal : Aligned md consenters)
    (hlt : Updates md late fn) (hroom : md.metadata.nextConsenterId + additions late < 2 ^ 64)
    {nodeID : ℕ} (hf : Holds md nodeID first) (hs : Holds fn nodeID second) (ho : first ≠ second) :
    ∃ update ∈ late, update.2.rotated = true ∧ update.2.rotatedNode = nodeID := by
  induction hlt generalizing second with
  | none => exact absurd (hf.unique hs) ho
  | next pre accepted ih =>
    rw [additions_snoc] at hroom
    obtain ⟨hn, _⟩ := aligned_updates hal pre (by omega)
    rcases holds_before hn accepted hs with hold | hr | _
    · obtain ⟨update, hm, hr⟩ := ih (by omega) hold ho
      exact ⟨update, mem_append_left _ hm, hr⟩
    · exact ⟨_, mem_append_right _ mem_cons_self, hr⟩
    · have hle := hal.ids_lt _ (hal.mem_ids_of_holds hf)
      omega

theorem aligned_createConsentersMap {md : BlockMetadata} (hds : md.consenterIds.Nodup)
    (hlt : ∀ nodeID ∈ md.consenterIds, nodeID < md.nextConsenterId)
    (hl : md.consenterIds.length = consenters.length)
    (hc : metadataHasDuplication (some (consenters.map some)) = .ok ()) :
    Aligned ⟨md, createConsentersMap md consenters⟩ consenters := by
  refine ⟨hl, hds, metadataHasDuplication_ok hc, hlt, ?_⟩
  intro nodeID _
  have hky : ((md.consenterIds.zip consenters).map Prod.fst).Nodup := by
    rwa [map_fst_zip hl.le]
  change (createConsentersMap md consenters).get nodeID = _ ↔ _
  rw [createConsentersMap, get_insertAll_iff hky]
  simp

/-- Ids, configurations and the consenters by id stay aligned over any
accepted updates; an id changes hands only in a rotation; and every further
update keeps the ids of the consenters that stay and asks raft for exactly its
own addition or removal. -/
theorem membership_of_updates {metadata : BlockMetadata}
    {consenters : List Consenter} {middle final : Membership}
    {early late : List (List Consenter × MembershipChanges)}
    (hdistinct : metadata.consenterIds.Nodup)
    (hbelow : ∀ nodeID ∈ metadata.consenterIds, nodeID < metadata.nextConsenterId)
    (hlength : metadata.consenterIds.length = consenters.length)
    (hcheck : metadataHasDuplication (some (consenters.map some)) = .ok ())
    (hearly : Updates ⟨metadata, createConsentersMap metadata consenters⟩ early middle)
    (hlate : Updates middle late final)
    (hroom : metadata.nextConsenterId + additions (early ++ late) < 2 ^ 64) :
    (final.metadata.consenterIds.Nodup ∧
      final.metadata.consenterIds.length = (configured consenters (early ++ late)).length ∧
      (∀ (position nodeID : ℕ) (consenter : Consenter),
        final.metadata.consenterIds[position]? = some nodeID →
        (configured consenters (early ++ late))[position]? = some consenter →
        final.consenters.get nodeID = some consenter) ∧
      (∀ nodeID, nodeID ∈ final.metadata.consenterIds ↔ nodeID ∈ final.consenters.keys) ∧
      ∀ nodeID ∈ final.metadata.consenterIds, nodeID < final.metadata.nextConsenterId) ∧
    (∀ nodeID first second, Holds middle nodeID first → Holds final nodeID second → first ≠ second →
      ∃ update ∈ late, update.2.rotated = true ∧ update.2.rotatedNode = nodeID) ∧
    ∀ newConsenters changes, Accepts final newConsenters changes →
      (∀ nodeID cert, Holds final nodeID cert → cert ∈ newConsenters.map Consenter.clientTlsCert →
        Holds changes.applied nodeID cert) ∧
      ∀ voters : List ℕ, voters.Perm final.metadata.consenterIds →
        getInFlightConfChange none changes.newBlockMetadata voters = changes.confChange ∧
          ∀ change, changes.confChange = some change →
            confChange changes.newBlockMetadata voters = change := by
  have hsr := aligned_createConsentersMap hdistinct hbelow hlength hcheck
  obtain ⟨hfn, -⟩ := aligned_updates hsr (hearly.append hlate) hroom
  rw [additions, countP_append] at hroom
  obtain ⟨hmid, hnx⟩ := aligned_updates hsr hearly (lt_of_le_of_lt (by simp [additions]) hroom)
  refine ⟨⟨hfn.ids_nodup, hfn.length_eq, ?_, ?_, hfn.ids_lt⟩, ?_, ?_⟩
  · intro position _ _ hid hcn
    rw [hfn.get_iff]
    apply mem_of_getElem? (i := position)
    rw [List.getElem?_zip_eq_some]
    exact ⟨hid, hcn⟩
  · intro nodeID
    rw [hfn.mem_ids_iff, mem_keys_iff]
  · intro _ _ _ hf hs ho
    apply rotated_of_holds hmid hlate _ hf hs ho
    rw [hnx, add_assoc]
    exact hroom
  · intro _ _ hacc
    refine ⟨fun nodeID cert => holds_of_stays hfn hacc, ?_⟩
    intro _ hvtr
    exact confChange_pending hfn hacc hvtr

def sampleConsenters : List Consenter := [⟨[1], [11]⟩, ⟨[2], [12]⟩]

def sampleRotation : List Consenter := [⟨[3], [13]⟩, ⟨[1], [11]⟩]

def sampleMetadata : BlockMetadata where
  consenterIds := [1, 2]
  nextConsenterId := 3
  raftIndex := 7

def sampleMembership : Membership where
  metadata := sampleMetadata
  consenters := createConsentersMap sampleMetadata sampleConsenters

def sampleChanges : MembershipChanges where
  newBlockMetadata :=
    { consenterIds := [2, 1], nextConsenterId := 3, raftIndex := 7 }
  newConsenters := createConsentersMap
    { consenterIds := [2, 1], nextConsenterId := 3, raftIndex := 7 }
    sampleRotation
  addedNodes := [⟨[3], [13]⟩]
  removedNodes := [⟨[2], [12]⟩]
  rotatedNode := 2

theorem accepts_sampleRotation : Accepts sampleMembership sampleRotation sampleChanges := by
  refine ⟨by rfl, sampleMembership.consenters.entries,
    sampleMembership.consenters.entries, List.Perm.refl _, List.Perm.refl _, ?_⟩
  rfl

/-- A rotation hands the id of one certificate to another, and adding a node
when the last id has been given out leaves an id that is not below the next
one. -/
theorem rotation_passes_id :
    (∃ changes, Accepts sampleMembership sampleRotation changes ∧
      Holds sampleMembership 2 [2] ∧ Holds changes.applied 2 [3]) ∧
    ∃ changes, Accepts
        ⟨{ sampleMetadata with nextConsenterId := 2 ^ 64 - 1 }, sampleMembership.consenters⟩
        (sampleConsenters ++ [⟨[3], [13]⟩]) changes ∧
      changes.newBlockMetadata.consenterIds = [1, 2, 2 ^ 64 - 1] ∧
      changes.newBlockMetadata.nextConsenterId = 0 := by
  constructor
  · exact ⟨sampleChanges, accepts_sampleRotation, ⟨⟨[2], [12]⟩, rfl, rfl⟩, ⟨⟨[3], [13]⟩, rfl, rfl⟩⟩
  · refine ⟨_, ⟨rfl, sampleMembership.consenters.entries,
      sampleMembership.consenters.entries, List.Perm.refl _,
      List.Perm.refl _, rfl⟩, rfl, by decide⟩

theorem membership_of_sampleRotation :
    Holds sampleChanges.applied 2 [3] ∧
      ∃ update ∈ [(sampleRotation, sampleChanges)],
        update.2.rotated = true ∧ update.2.rotatedNode = 2 := by
  have hu : Updates sampleMembership
      ([] ++ [(sampleRotation, sampleChanges)]) sampleChanges.applied :=
    .next (.none _) accepts_sampleRotation
  have hhl : Holds sampleChanges.applied 2 [3] := ⟨⟨[3], [13]⟩, rfl, rfl⟩
  refine ⟨hhl, ?_⟩
  exact (membership_of_updates (by decide) (by decide) rfl rfl (.none _)
    hu (by decide)).2.1 2 [2] [3] ⟨⟨[2], [12]⟩, rfl, rfl⟩ hhl
    (by decide)

end FabricSequencer.Etcdraft
