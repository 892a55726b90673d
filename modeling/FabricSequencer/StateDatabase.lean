import FabricSequencer.GoTypes
import FabricSequencer.SortedMap

/-!
# The state database and the updates of a block

`privacyenabledstate.DB` keeps public data, hashes of private data and private
data in one versioned database, each kind in namespaces of its own that are
derived from the chaincode and the collection.  Here the three kinds are
constructors: the derived names do not collide, since the name of a chaincode
does not contain the joiner.

A stored value is never nil.  In an update batch a nil value marks a delete,
and `Delete` writes it without metadata, so an update is either of the two.
The updates of a block's private data are a batch of their own, which
validation does not read.
-/

namespace FabricSequencer

open SortedMap List

structure Height where
  blockNum : ℕ
  txNum : ℕ
deriving DecidableEq

def Height.compare (h h1 : Height) : ℤ :=
  if h.blockNum < h1.blockNum then -1
  else if h.blockNum > h1.blockNum then 1
  else if h.txNum < h1.txNum then -1
  else if h.txNum > h1.txNum then 1
  else 0

/-- `String`, on a pointer that may be nil. -/
def Height.text : Option Height → String
  | none => "<nil>"
  | some h => "\x7bBlockNum: " ++ toString h.blockNum ++ ", TxNum: " ++ toString h.txNum ++ "\x7d"

/-- `version.AreSame` on pointers that may be nil. -/
def areSame : Option Height → Option Height → Bool
  | none, h2 => h2.isNone
  | some _, none => false
  | some h1, some h2 => h1.compare h2 = 0

theorem Height.compare_eq_zero_iff {h h1 : Height} : h.compare h1 = 0 ↔ h = h1 := by
  rcases h with ⟨_, _⟩
  rcases h1 with ⟨_, _⟩
  simp only [Height.compare, Height.mk.injEq]
  split_ifs <;> simp <;> omega

@[simp] theorem areSame_iff {first second : Option Height} :
    areSame first second = true ↔ first = second := by
  cases first <;> cases second <;>
    simp [areSame, Height.compare_eq_zero_iff]

structure VersionedValue where
  value : Bytes
  metadata : Option Bytes
  version : Height
deriving DecidableEq

inductive Update where
  | put (value : Bytes) (metadata : Option Bytes) (version : Height)
  | delete (version : Height)

namespace Update

/-- The field `Value`, nil for a delete. -/
def value : Update → Option Bytes
  | .put value _ _ => some value
  | .delete _ => none

def metadata : Update → Option Bytes
  | .put _ metadata _ => metadata
  | .delete _ => none

def version : Update → Height
  | .put _ _ version => version
  | .delete version => version

def resolve : Update → Option VersionedValue
  | .put value metadata version => some ⟨value, metadata, version⟩
  | .delete _ => none

end Update

inductive StateNs where
  | pub (ns : GoString)
  | hashed (ns coll : GoString)
  | pvt (ns coll : GoString)

namespace StateNs

def chaincode : StateNs → GoString
  | .pub ns => ns
  | .hashed ns _ => ns
  | .pvt ns _ => ns

end StateNs

/-! ## Update batches -/

/-- `statedb.UpdateBatch`: the updates of each namespace. -/
abbrev UpdateBatch := SortedMap GoString (SortedMap GoString Update)

namespace UpdateBatch

variable (batch : UpdateBatch)

def nsUpdates (ns : GoString) : SortedMap GoString Update :=
  (batch.get ns).getD SortedMap.empty

variable (ns key : GoString)

def getUpdate : Option Update :=
  (batch.nsUpdates ns).get key

def exist : Bool := (batch.getUpdate ns key).isSome

variable (vv : Update)

/-- `Update`, with the map of the namespace created if there is none. -/
def update : UpdateBatch :=
  batch.insert ns ((batch.nsUpdates ns).insert key vv)

theorem nsUpdates_update (other : GoString) :
    (batch.update ns key vv).nsUpdates other =
      if other = ns then (batch.nsUpdates ns).insert key vv
      else batch.nsUpdates other := by
  unfold nsUpdates update
  rw [get_insert]
  split_ifs <;> rfl

theorem getUpdate_update (ns' key' : GoString) :
    (batch.update ns key vv).getUpdate ns' key' =
      if ns' = ns ∧ key' = key then some vv else batch.getUpdate ns' key' := by
  unfold getUpdate
  rw [nsUpdates_update]
  by_cases hns : ns' = ns
  · subst ns'
    simp [get_insert]
  · simp [hns]

end UpdateBatch

/-- `HashedUpdateBatch`: for each namespace a batch whose namespaces are the
collections. -/
abbrev HashedUpdateBatch := SortedMap GoString UpdateBatch

namespace HashedUpdateBatch

variable (batch : HashedUpdateBatch)

def nsBatch (ns : GoString) : UpdateBatch :=
  (batch.get ns).getD SortedMap.empty

def getUpdate (batch : HashedUpdateBatch) (ns coll keyHash : GoString) : Option Update :=
  (batch.nsBatch ns).getUpdate coll keyHash

variable (ns coll keyHash : GoString)

def contains : Bool :=
  (batch.nsBatch ns).exist coll keyHash

def update (batch : HashedUpdateBatch) (ns coll keyHash : GoString)
    (vv : Update) : HashedUpdateBatch :=
  batch.insert ns ((batch.nsBatch ns).update coll keyHash vv)

theorem nsBatch_update (vv : Update) (other : GoString) :
    (batch.update ns coll keyHash vv).nsBatch other =
      if other = ns then (batch.nsBatch ns).update coll keyHash vv
      else batch.nsBatch other := by
  unfold nsBatch update
  rw [get_insert]
  split_ifs <;> rfl

theorem getUpdate_update (vv : Update) (ns' co' keyHash' : GoString) :
    (batch.update ns coll keyHash vv).getUpdate ns' co' keyHash' =
      if ns' = ns ∧ co' = coll ∧ keyHash' = keyHash then some vv
      else batch.getUpdate ns' co' keyHash' := by
  unfold getUpdate
  rw [nsBatch_update]
  by_cases hns : ns' = ns
  · subst ns'
    simp [UpdateBatch.getUpdate_update]
  · simp [hns]

end HashedUpdateBatch

structure PublicAndHashUpdates where
  publicUpdates : UpdateBatch
  hashUpdates : HashedUpdateBatch
  containsPostOrderWrites : Bool

def newPubAndHashUpdates : PublicAndHashUpdates where
  publicUpdates := SortedMap.empty
  hashUpdates := SortedMap.empty
  containsPostOrderWrites := false

namespace PublicAndHashUpdates

/-- The updates as they are combined for the underlying database. -/
def changes (updates : PublicAndHashUpdates) : StateNs → SortedMap GoString Update
  | .pub ns => updates.publicUpdates.nsUpdates ns
  | .hashed ns coll => (updates.hashUpdates.nsBatch ns).nsUpdates coll
  | .pvt _ _ => SortedMap.empty

def usesMetadata (entries : List (GoString × Update)) : Bool :=
  entries.any fun entry => entry.2.metadata.isSome

/-- `filterNamespacesThatHasMetadata`. -/
def namespaceHasMetadata (updates : PublicAndHashUpdates) (ns : GoString) : Bool :=
  usesMetadata (updates.publicUpdates.nsUpdates ns).entries ||
    (updates.hashUpdates.nsBatch ns).entries.any fun coll =>
      usesMetadata coll.2.entries

theorem namespaceHasMetadata_of_change {updates : PublicAndHashUpdates} {space : StateNs}
    {key : GoString} {vv : Update} (hc : (updates.changes space).get key = some vv)
    (hmt : vv.metadata ≠ none) : updates.namespaceHasMetadata space.chaincode = true := by
  have hsm : vv.metadata.isSome = true := Option.isSome_iff_ne_none.mpr hmt
  cases space with
  | pub ns =>
    have hm := get_eq_some_iff.mp hc
    have hus : usesMetadata (updates.publicUpdates.nsUpdates ns).entries = true :=
      any_eq_true.mpr ⟨(key, vv), hm, hsm⟩
    simp [namespaceHasMetadata, StateNs.chaincode, hus]
  | hashed ns coll =>
    simp only [changes, UpdateBatch.nsUpdates] at hc
    cases hco : (updates.hashUpdates.nsBatch ns).get coll with
    | none => simp [hco] at hc
    | some collUpdates =>
      rw [hco] at hc
      have hm := get_eq_some_iff.mp hc
      have hus : usesMetadata collUpdates.entries = true := any_eq_true.mpr ⟨(key, vv), hm, hsm⟩
      have hn : ((updates.hashUpdates.nsBatch ns).entries.any fun coll =>
          usesMetadata coll.2.entries) = true :=
        any_eq_true.mpr ⟨(coll, collUpdates), get_eq_some_iff.mp hco, hus⟩
      simp [namespaceHasMetadata, StateNs.chaincode, hn]
  | pvt => simp [changes] at hc

end PublicAndHashUpdates

/-- The committed state.  The metadata hint names the chaincodes for which
public data or hashes ever had metadata. -/
structure DB where
  data : StateNs → SortedMap GoString VersionedValue
  metadataHint : GoString → Bool
  hint_covers : ∀ space key vv, (∀ ns coll, space ≠ .pvt ns coll) →
    (data space).get key = some vv → vv.metadata ≠ none → metadataHint space.chaincode = true

namespace DB

variable (db : DB) (space : StateNs)

def getState (key : GoString) : Option VersionedValue :=
  (db.data space).get key

def getVersion (key : GoString) : Option Height :=
  (db.getState space key).map VersionedValue.version

def inRange (startKey endKey key : GoString) : Bool :=
  decide (startKey ≤ key) && (endKey.isEmpty || decide (key < endKey))

def getStateRangeScanIterator (startKey endKey : GoString) : List (GoString × VersionedValue) :=
  ((db.data space).restrict (inRange startKey endKey)).entries

variable (ns coll keyHash : GoString)

def getValueHash : Option VersionedValue :=
  db.getState (.hashed ns coll) keyHash

def getKeyHashVersion : Option Height :=
  db.getVersion (.hashed ns coll) keyHash

def getStateMetadata (ns key : GoString) : Option Bytes :=
  if db.metadataHint ns then
    (db.getState (.pub ns) key).bind VersionedValue.metadata
  else none

def getPrivateDataMetadataByHash : Option Bytes :=
  if db.metadataHint ns then
    (db.getValueHash ns coll keyHash).bind VersionedValue.metadata
  else none

theorem metadata_eq_none_of_not_hint {db : DB} (space : StateNs)
    (hsp : ∀ ns coll, space ≠ .pvt ns coll) (hhn : db.metadataHint space.chaincode = false)
    (key : GoString) : (db.getState space key).bind VersionedValue.metadata = none := by
  cases hg : db.getState space key with
  | none => rfl
  | some vv =>
    by_contra hmeta
    have hc := db.hint_covers space key vv hsp hg hmeta
    rw [hhn] at hc
    cases hc

theorem getStateMetadata_eq (ns key : GoString) :
    db.getStateMetadata ns key = (db.getState (.pub ns) key).bind VersionedValue.metadata := by
  unfold getStateMetadata
  split_ifs with hhint
  · rfl
  · exact (metadata_eq_none_of_not_hint (.pub ns) (by simp)
      (Bool.eq_false_of_not_eq_true hhint) key).symm

theorem getPrivateDataMetadataByHash_eq :
    db.getPrivateDataMetadataByHash ns coll keyHash =
      (db.getState (.hashed ns coll) keyHash).bind VersionedValue.metadata := by
  unfold getPrivateDataMetadataByHash getValueHash
  split_ifs with hhint
  · rfl
  · exact (metadata_eq_none_of_not_hint (.hashed ns coll) (by simp)
      (Bool.eq_false_of_not_eq_true hhint) keyHash).symm

variable (updates : PublicAndHashUpdates)

/-- `ApplyPrivacyAwareUpdates` with a batch of public and hashed updates. -/
def applyUpdates : DB where
  data space := SortedMap.overlay Update.resolve (db.data space) (updates.changes space)
  metadataHint ns := db.metadataHint ns || updates.namespaceHasMetadata ns
  hint_covers := by
    intro space key vv hspace hget hmetadata
    rw [get_overlay] at hget
    cases hchange : (updates.changes space).get key with
    | none =>
      rw [hchange] at hget
      simp [db.hint_covers space key vv hspace hget hmetadata]
    | some changed =>
      rw [hchange] at hget
      have hsame : changed.metadata = vv.metadata := by
        cases changed with
        | put =>
          rw [← Option.some.inj hget]
          rfl
        | delete => cases hget
      rw [← hsame] at hmetadata
      simp [PublicAndHashUpdates.namespaceHasMetadata_of_change hchange hmetadata]

theorem getState_applyUpdates (space : StateNs) (key : GoString) :
    (db.applyUpdates updates).getState space key =
      ((updates.changes space).get key).elim (db.getState space key) Update.resolve :=
  get_overlay Update.resolve (db.data space) (updates.changes space) key

end DB

end FabricSequencer
