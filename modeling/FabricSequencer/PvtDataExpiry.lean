import FabricSequencer.PvtDataReconcile

/-!
# What the expiry entries list

An expiry entry lists, for the block in which they were committed, the write
sets and the missing data that are to be removed at the block in its key.
Entries only grow until the purger takes them, so what was once listed is still
listed.
-/

namespace FabricSequencer.Pvtdatastorage

open SortedMap List

variable {btl : BTLPolicy}

namespace ExpiryData

variable (e : ExpiryData) (ns coll : GoString)

def Present (txNum : ℕ) : Prop :=
  ∃ nsData, e.get ns = some nsData ∧
    ∃ txNums, nsData.presentData.get coll = some txNums ∧ txNum ∈ txNums

def Missing : Prop :=
  ∃ nsData, e.get ns = some nsData ∧ ∃ flag, nsData.missingData.get coll = some flag

def Grows (before after : ExpiryData) : Prop :=
  (∀ ns coll txNum, before.Present ns coll txNum → after.Present ns coll txNum) ∧
  ∀ ns coll, before.Missing ns coll → after.Missing ns coll

theorem grows_refl : e.Grows e :=
  ⟨fun _ _ _ hpr => hpr, fun _ _ hms => hms⟩

theorem grows_insert {e : ExpiryData} {ns : GoString} {nsData : NamespaceExpiryData}
    (hpr : ∀ coll tn txNums, (e.getOrCreateCollections ns).presentData.get coll = some txNums →
      tn ∈ txNums → ∃ lt, nsData.presentData.get coll = some lt ∧ tn ∈ lt)
    (hms : ∀ coll flag, (e.getOrCreateCollections ns).missingData.get coll = some flag →
      ∃ lt, nsData.missingData.get coll = some lt) :
    e.Grows (e.insert ns nsData) := by
  have hco : ∀ before, e.get ns = some before → e.getOrCreateCollections ns = before := by
    intro _ hp
    rw [getOrCreateCollections, hp]
    rfl
  refine ⟨?_, ?_⟩
  · rintro other coll tn ⟨before, hp, txNums, ht, hm⟩
    by_cases hns : other = ns
    · subst hns
      obtain ⟨lt, hl, hin⟩ := hpr coll tn txNums (by rw [hco before hp]; exact ht) hm
      exact ⟨nsData, get_insert_self _ _ _, lt, hl, hin⟩
    · exact ⟨before, by rw [get_insert_of_ne _ _ hns, hp], txNums, ht, hm⟩
  · rintro other coll ⟨before, hp, flag, hfl⟩
    by_cases hns : other = ns
    · subst hns
      obtain ⟨lt, hl⟩ := hms coll flag (by rw [hco before hp]; exact hfl)
      exact ⟨nsData, get_insert_self _ _ _, lt, hl⟩
    · exact ⟨before, by rw [get_insert_of_ne _ _ hns, hp], flag, hfl⟩

theorem grows_addPresentData (tn : ℕ) : e.Grows (e.addPresentData ns coll tn) := by
  apply grows_insert
  · intro _ _ txNums ht hm
    dsimp only
    rw [get_insert]
    split_ifs with hcoll
    · subst hcoll
      refine ⟨_, rfl, mem_append_left _ ?_⟩
      rw [ht]
      exact hm
    · exact ⟨txNums, ht, hm⟩
  · intro _ flag hfl
    exact ⟨flag, hfl⟩

theorem present_addPresentData
    (txNum : ℕ) : (e.addPresentData ns coll txNum).Present ns coll txNum :=
  ⟨_, get_insert_self _ _ _, _, get_insert_self _ _ _, mem_append_right _ mem_cons_self⟩

theorem grows_addMissingData : e.Grows (e.addMissingData ns coll) := by
  apply grows_insert
  · intro _ _ txNums ht hm
    exact ⟨txNums, ht, hm⟩
  intro _ flag hfl
  dsimp only
  rw [get_insert]
  split_ifs
  · exact ⟨true, rfl⟩
  · exact ⟨flag, hfl⟩

theorem missing_addMissingData : (e.addMissingData ns coll).Missing ns coll :=
  ⟨_, get_insert_self _ _ _, true, get_insert_self _ _ _⟩

end ExpiryData

variable {v : ExpiryData} {dk : DataKey}

theorem mem_deriveDataKeys {key : ExpiryKey} :
    dk ∈ deriveDataKeys key v ↔
      v.Present dk.ns dk.coll dk.txNum ∧ dk.blkNum = key.committingBlk := by
  simp only [deriveDataKeys, mem_flatMap, mem_map, Prod.exists, ExpiryData.Present, get_eq_some_iff]
  constructor
  · rintro ⟨_, nsData, hns, _, txNums, hco, _, hm, rfl⟩
    exact ⟨⟨nsData, hns, txNums, hco, hm⟩, rfl⟩
  · rintro ⟨⟨nsData, hns, txNums, hco, hm⟩, hblk⟩
    refine ⟨dk.ns, nsData, hns, dk.coll, txNums, hco, dk.txNum, hm, ?_⟩
    rw [← hblk]

theorem mem_deriveMissingDataKeys {key : ExpiryKey} {missingKey : NsCollBlk} :
    missingKey ∈ deriveMissingDataKeys key v ↔
      v.Missing missingKey.ns missingKey.coll ∧ missingKey.blkNum = key.committingBlk := by
  simp only [deriveMissingDataKeys, mem_flatMap, mem_map,
    Prod.exists, ExpiryData.Missing, get_eq_some_iff]
  constructor
  · rintro ⟨_, nsData, hns, _, flag, hco, rfl⟩
    exact ⟨⟨nsData, hns, flag, hco⟩, rfl⟩
  · rintro ⟨⟨nsData, hns, flag, hco⟩, hblk⟩
    refine ⟨missingKey.ns, nsData, hns, missingKey.coll, flag, hco, ?_⟩
    rw [← hblk]

def ListedData (btlPolicy : BTLPolicy) (db : StoreDB) (dk : DataKey) : Prop :=
  ∀ expiringBlk, btlPolicy.getExpiringBlock dk.ns dk.coll dk.blkNum = .ok expiringBlk →
    neverExpires expiringBlk = false →
    ∃ value, db.expiry.get ⟨expiringBlk, dk.blkNum⟩ = some value ∧
      dk ∈ deriveDataKeys ⟨expiringBlk, dk.blkNum⟩ value

def ListedMissing (btlPolicy : BTLPolicy) (db : StoreDB) (key : NsCollBlk) : Prop :=
  ∀ expiringBlk, btlPolicy.getExpiringBlock key.ns key.coll key.blkNum = .ok expiringBlk →
    neverExpires expiringBlk = false →
    ∃ value, db.expiry.get ⟨expiringBlk, key.blkNum⟩ = some value ∧
      key ∈ deriveMissingDataKeys ⟨expiringBlk, key.blkNum⟩ value

def ExpiryGrows (db next : StoreDB) (blkNum : ℕ) : Prop :=
  ∀ expiringBlk value,
    db.expiry.get ⟨expiringBlk, blkNum⟩ = some value → ∃ later,
      next.expiry.get ⟨expiringBlk, blkNum⟩ = some later ∧ value.Grows later

theorem ListedData.mono {db next : StoreDB} (hls : ListedData btl db dk)
    (hgr : ExpiryGrows db next dk.blkNum) :
    ListedData btl next dk := by
  intro exp hx hf
  obtain ⟨v, hval, hm⟩ := hls exp hx hf
  obtain ⟨lt, hl, hpr, -⟩ := hgr exp v hval
  rw [mem_deriveDataKeys] at hm
  exact ⟨lt, hl, mem_deriveDataKeys.mpr ⟨hpr _ _ _ hm.1, rfl⟩⟩

variable {key : NsCollBlk}

theorem ListedMissing.mono {db next : StoreDB} (hls : ListedMissing btl db key)
    (hgr : ExpiryGrows db next key.blkNum) :
    ListedMissing btl next key := by
  intro exp hx hf
  obtain ⟨v, hval, hm⟩ := hls exp hx hf
  obtain ⟨lt, hl, -, hms⟩ := hgr exp v hval
  rw [mem_deriveMissingDataKeys] at hm
  exact ⟨lt, hl, mem_deriveMissingDataKeys.mpr ⟨hms _ _ hm.1, rfl⟩⟩

/-! ## The entries of a commit -/

def ExpiryByBlock.Grows (before after : ExpiryByBlock) : Prop :=
  ∀ expiringBlk value, before.get expiringBlk = some value → ∃ later,
    after.get expiringBlk = some later ∧ value.Grows later

theorem ExpiryByBlock.grows_refl (entries : ExpiryByBlock) : entries.Grows entries :=
  fun _ v hval => ⟨v, hval, v.grows_refl⟩

theorem ExpiryByBlock.Grows.trans {first b third : ExpiryByBlock}
    (hf : first.Grows b) (hs : b.Grows third) :
    first.Grows third := by
  intro exp v hval
  obtain ⟨md, hm, hpr, hms⟩ := hf exp v hval
  obtain ⟨la, hla, hp', hm'⟩ := hs exp md hm
  exact ⟨la, hla, fun ns coll tn h => hp' ns coll tn (hpr ns coll tn h),
    fun ns coll h => hm' ns coll (hms ns coll h)⟩

theorem ExpiryByBlock.grows_insert {es : ExpiryByBlock}
    {exp : ℕ} (hgr : (getOrCreateExpiryData es exp).Grows v) : es.Grows (es.insert exp v) := by
  intro _ before hp
  rw [get_insert]
  split_ifs with heq
  · subst heq
    refine ⟨v, rfl, ?_⟩
    rw [getOrCreateExpiryData, hp] at hgr
    exact hgr
  · exact ⟨before, hp, before.grows_refl⟩

def ExpiryByBlock.ListsData (btlPolicy : BTLPolicy) (dk : DataKey)
    (entries : ExpiryByBlock) : Prop :=
  ∀ expiringBlk, btlPolicy.getExpiringBlock dk.ns dk.coll dk.blkNum = .ok expiringBlk →
    neverExpires expiringBlk = false → ∃ value,
      entries.get expiringBlk = some value ∧ value.Present dk.ns dk.coll dk.txNum

def ExpiryByBlock.ListsMissing (btlPolicy : BTLPolicy) (key : NsCollBlk)
    (entries : ExpiryByBlock) : Prop :=
  ∀ expiringBlk, btlPolicy.getExpiringBlock key.ns key.coll key.blkNum = .ok expiringBlk →
    neverExpires expiringBlk = false → ∃ value,
      entries.get expiringBlk = some value ∧ value.Missing key.ns key.coll

variable {before after : ExpiryByBlock}

theorem ExpiryByBlock.ListsData.mono (hgr : before.Grows after) (hls : before.ListsData btl dk) :
    after.ListsData btl dk := by
  intro exp hx hf
  obtain ⟨v, hval, hpr⟩ := hls exp hx hf
  obtain ⟨lt, hl, hkp, -⟩ := hgr exp v hval
  exact ⟨lt, hl, hkp _ _ _ hpr⟩

theorem ExpiryByBlock.ListsMissing.mono (hgr : before.Grows after)
    (hls : before.ListsMissing btl key) :
    after.ListsMissing btl key := by
  intro exp hx hf
  obtain ⟨v, hval, hms⟩ := hls exp hx hf
  obtain ⟨lt, hl, -, hkp⟩ := hgr exp v hval
  exact ⟨lt, hl, hkp _ _ hms⟩

theorem prepareExpiryEntriesForPresentData_eq_ok
    (htr : prepareExpiryEntriesForPresentData btl before dk = .ok after) :
    before.Grows after ∧ after.ListsData btl dk := by
  obtain ⟨_, hx, htr⟩ := of_bind htr
  split at htr
  next hnv =>
    cases htr
    refine ⟨before.grows_refl, ?_⟩
    intro _ ho hf
    rw [hx] at ho
    cases ho
    rw [hnv] at hf
    cases hf
  · cases htr
    refine ⟨ExpiryByBlock.grows_insert (ExpiryData.grows_addPresentData _ _ _ _), ?_⟩
    intro _ ho _
    rw [hx] at ho
    cases ho
    exact ⟨_, get_insert_self _ _ _, ExpiryData.present_addPresentData _ _ _ _⟩

theorem prepareExpiryEntriesForMissingData_eq_ok
    (htr : prepareExpiryEntriesForMissingData btl before key = .ok after) :
    before.Grows after ∧ after.ListsMissing btl key := by
  obtain ⟨_, hx, htr⟩ := of_bind htr
  split at htr
  next hnv =>
    cases htr
    refine ⟨before.grows_refl, ?_⟩
    intro _ ho hf
    rw [hx] at ho
    cases ho
    rw [hnv] at hf
    cases hf
  · cases htr
    refine ⟨ExpiryByBlock.grows_insert (ExpiryData.grows_addMissingData _ _ _), ?_⟩
    intro _ ho _
    rw [hx] at ho
    cases ho
    exact ⟨_, get_insert_self _ _ _, ExpiryData.missing_addMissingData _ _ _⟩

theorem prepareExpiryEntries_eq_ok {committingBlk : ℕ} {des : List DataEntry}
    {elgMissing inelgMissing : MissingData} {expiryEntries : List (ExpiryKey × ExpiryData)}
    (hpp : prepareExpiryEntries committingBlk des elgMissing inelgMissing btl = .ok expiryEntries) :
    ∃ all : ExpiryByBlock, expiryEntries = all.entries.map (fun e => (⟨e.1, committingBlk⟩, e.2)) ∧
      (∀ e ∈ des, all.ListsData btl e.1) ∧
      (∀ key ∈ elgMissing.keys, all.ListsMissing btl key) ∧
      ∀ key ∈ inelgMissing.keys, all.ListsMissing btl key := by
  obtain ⟨_, hpr, hpp⟩ := of_bind hpp
  obtain ⟨_, hel, hpp⟩ := of_bind hpp
  obtain ⟨all, ha, hpp⟩ := of_bind hpp
  cases hpp
  obtain ⟨-, hdt⟩ := Except.foldlM_collects ExpiryByBlock.Grows
    (ExpiryByBlock.ListsData btl) hpr ExpiryByBlock.grows_refl
    ExpiryByBlock.Grows.trans prepareExpiryEntriesForPresentData_eq_ok ExpiryByBlock.ListsData.mono
  obtain ⟨hgr, hms⟩ := Except.foldlM_collects ExpiryByBlock.Grows
    (ExpiryByBlock.ListsMissing btl) hel ExpiryByBlock.grows_refl ExpiryByBlock.Grows.trans
    prepareExpiryEntriesForMissingData_eq_ok ExpiryByBlock.ListsMissing.mono
  obtain ⟨hgr', hm'⟩ := Except.foldlM_collects ExpiryByBlock.Grows
    (ExpiryByBlock.ListsMissing btl) ha ExpiryByBlock.grows_refl ExpiryByBlock.Grows.trans
    prepareExpiryEntriesForMissingData_eq_ok ExpiryByBlock.ListsMissing.mono
  refine ⟨all, rfl, ?_, ?_, hm'⟩
  · intro e he
    exact (hdt e.1 (mem_map_of_mem he)).mono (hgr.trans hgr')
  · intro key hk
    exact (hms key hk).mono hgr'

end FabricSequencer.Pvtdatastorage
