import FabricSequencer.ReadWriteSet
import Mathlib.Data.Prod.Lex

/-!
# Preparing the updates of a valid transaction

`applyWriteSet` first collects what the write set does to each key, then merges
the parts of a key's state that the write set leaves alone from the preceding
updates or the committed state, and adds the result to the updates of the
block.
-/

namespace FabricSequencer

structure CompositeKey where
  ns : GoString
  coll : GoString
  key : GoString

namespace CompositeKey

def toTriple (ck : CompositeKey) : GoString ×ₗ (GoString ×ₗ GoString) :=
  toLex (ck.ns, toLex (ck.coll, ck.key))

theorem toTriple_injective : Function.Injective toTriple := by
  rintro ⟨⟩ ⟨⟩ heq
  cases heq
  rfl

instance : LinearOrder CompositeKey := LinearOrder.lift' toTriple toTriple_injective

def space (ck : CompositeKey) : StateNs :=
  if ck.coll = [] then .pub ck.ns else .hashed ck.ns ck.coll

end CompositeKey

inductive KeyWrite where
  | upsert (value : Bytes)
  | delete
  | metadataUpdate (metadata : Bytes)
  | metadataDelete

def upsertVal : ℕ := 1
def metadataUpdate : ℕ := 2
def metadataDelete : ℕ := 4
def keyDelete : ℕ := 8

/-- `keyOps`; the flag is a `uint8` to which every write adds its bit. -/
structure KeyOps where
  flag : ℕ
  value : Option Bytes
  metadata : Option Bytes

namespace KeyOps

variable (keyops : KeyOps)

def record : KeyWrite → KeyOps
  | .upsert val =>
    { keyops with flag := uint8 (keyops.flag + upsertVal), value := some val }
  | .delete => { keyops with flag := uint8 (keyops.flag + keyDelete) }
  | .metadataUpdate metadata =>
    { keyops with
      flag := uint8 (keyops.flag + FabricSequencer.metadataUpdate)
      metadata := some metadata }
  | .metadataDelete =>
    { keyops with
      flag := uint8 (keyops.flag + FabricSequencer.metadataDelete) }

def isDelete : Bool := keyops.flag &&& keyDelete == keyDelete

def isUpsertAndMetadataUpdate : Bool :=
  if keyops.flag &&& upsertVal == upsertVal then
    keyops.flag &&& metadataUpdate == metadataUpdate ||
      keyops.flag &&& metadataDelete == metadataDelete
  else false

def isOnlyUpsert : Bool := keyops.flag ||| upsertVal == upsertVal

end KeyOps

abbrev TxOps := SortedMap CompositeKey KeyOps

namespace TxOps

def getOrCreateKeyEntry (txops : TxOps) (k : CompositeKey) : KeyOps :=
  (txops.get k).getD { flag := 0, value := none, metadata := none }

def record (txops : TxOps) (k : CompositeKey) (write : KeyWrite) : TxOps :=
  txops.insert k ((txops.getOrCreateKeyEntry k).record write)

def upsert (txops : TxOps) (k : CompositeKey) (val : Bytes) : TxOps := txops.record k (.upsert val)

def delete (txops : TxOps) (k : CompositeKey) : TxOps := txops.record k .delete

def metadataUpdate (txops : TxOps) (k : CompositeKey) (metadata : Bytes) : TxOps :=
  txops.record k (.metadataUpdate metadata)

def metadataDelete (txops : TxOps) (k : CompositeKey) : TxOps := txops.record k .metadataDelete

end TxOps

def isKVWriteDelete (kvWrite : KVWrite) : Bool := kvWrite.isDelete || kvWrite.value.length == 0

def hashOfZeroLengthByteArray : Bytes :=
  [0xe3, 0xb0, 0xc4, 0x42, 0x98, 0xfc, 0x1c, 0x14, 0x9a, 0xfb, 0xf4, 0xc8,
    0x99, 0x6f, 0xb9, 0x24, 0x27, 0xae, 0x41, 0xe4, 0x64, 0x9b, 0x93, 0x4c,
    0xa4, 0x95, 0x99, 0x1b, 0x78, 0x52, 0xb8, 0x55]

def isKVWriteHashDelete (kvWriteHash : KVWriteHash) : Bool :=
  kvWriteHash.isDelete || kvWriteHash.valueHash.length == 0 ||
    hashOfZeroLengthByteArray == kvWriteHash.valueHash

def applyKVWrite (ns coll : GoString) (txops : TxOps) (kvWrite : KVWrite) : TxOps :=
  if isKVWriteDelete kvWrite then txops.delete ⟨ns, coll, kvWrite.key⟩
  else txops.upsert ⟨ns, coll, kvWrite.key⟩ kvWrite.value

def applyMetadata (ns coll : GoString) (txops : TxOps) (metadataWrite : KVMetadataWrite) : TxOps :=
  if metadataWrite.entries = [] then
    txops.metadataDelete ⟨ns, coll, metadataWrite.key⟩
  else
    txops.metadataUpdate ⟨ns, coll, metadataWrite.key⟩ (serializeMetadata metadataWrite.entries)

def KVWriteHash.toKVWrite (hashedWrite : KVWriteHash) : KVWrite where
  key := hashedWrite.keyHash
  isDelete := isKVWriteHashDelete hashedWrite
  value := hashedWrite.valueHash

def KVMetadataWriteHash.toKVMetadataWrite (write : KVMetadataWriteHash) : KVMetadataWrite where
  key := write.keyHash
  entries := write.entries

def applyCollHashedRwSet (ns : GoString) (txops : TxOps)
    (collHashRWset : CollHashedRwSet) : TxOps :=
  let coll := collHashRWset.collectionName
  let hashed := collHashRWset.hashedRwSet
  let written := hashed.hashedWrites.foldl
    (fun txops write => applyKVWrite ns coll txops write.toKVWrite) txops
  hashed.metadataWrites.foldl
    (fun txops write => applyMetadata ns coll txops write.toKVMetadataWrite)
    written

def applyNsRwSet (txops : TxOps) (nsRWSet : NsRwSet) : TxOps :=
  let ns := nsRWSet.nameSpace
  let written := nsRWSet.kvRwSet.writes.foldl (applyKVWrite ns []) txops
  let described := nsRWSet.kvRwSet.metadataWrites.foldl (applyMetadata ns []) written
  nsRWSet.collHashedRwSets.foldl (applyCollHashedRwSet ns) described

def applyTxRwset (txops : TxOps) (rwset : TxRwSet) : TxOps :=
  rwset.nsRwSets.foldl applyNsRwSet txops

/-- `retrieveLatestState`: whether there is a versioned value, and the value in
it, which is nil for a key that the preceding updates delete. -/
def retrieveLatestState (ck : CompositeKey) (precedingUpdates : PublicAndHashUpdates) (db : DB) :
    Option (Option Bytes) :=
  if ck.coll = [] then
    match precedingUpdates.publicUpdates.getUpdate ck.ns ck.key with
    | some vv => some vv.value
    | none => (db.getState (.pub ck.ns) ck.key).map fun vv => some vv.value
  else
    match precedingUpdates.hashUpdates.getUpdate ck.ns ck.coll ck.key with
    | some vv => some vv.value
    | none => (db.getValueHash ck.ns ck.coll ck.key).map fun vv => some vv.value

def retrieveLatestMetadata (ck : CompositeKey)
    (precedingUpdates : PublicAndHashUpdates) (db : DB) : Option Bytes :=
  if ck.coll = [] then
    match precedingUpdates.publicUpdates.getUpdate ck.ns ck.key with
    | some vv => vv.metadata
    | none => db.getStateMetadata ck.ns ck.key
  else
    match precedingUpdates.hashUpdates.getUpdate ck.ns ck.coll ck.key with
    | some vv => vv.metadata
    | none => db.getPrivateDataMetadataByHash ck.ns ck.coll ck.key

/-- One turn of the loop of `prepareTxOps`; `none` removes the key. -/
def mergeLatest (precedingUpdates : PublicAndHashUpdates) (db : DB)
    (ck : CompositeKey) (keyop : KeyOps) : Option KeyOps :=
  if keyop.isDelete || keyop.isUpsertAndMetadataUpdate then some keyop
  else if keyop.isOnlyUpsert then
    some { keyop with
      metadata := retrieveLatestMetadata ck precedingUpdates db }
  else
    (retrieveLatestState ck precedingUpdates db).map fun latestVal =>
      { keyop with value := latestVal }

def prepareTxOps (rwset : TxRwSet) (precedingUpdates : PublicAndHashUpdates) (db : DB) : TxOps :=
  (applyTxRwset SortedMap.empty rwset).mapFilter (mergeLatest precedingUpdates db)

def PublicAndHashUpdates.setUpdate (u : PublicAndHashUpdates)
    (ck : CompositeKey) (vv : Update) : PublicAndHashUpdates :=
  if ck.coll = [] then
    { u with publicUpdates := u.publicUpdates.update ck.ns ck.key vv }
  else
    { u with hashUpdates := u.hashUpdates.update ck.ns ck.coll ck.key vv }

/-- One turn of the loop of `applyWriteSet`.  `PutValAndMetadata` refuses a nil
value. -/
def applyKeyOps (txHeight : Height) (u : PublicAndHashUpdates)
    (entry : CompositeKey × KeyOps) : Outcome PublicAndHashUpdates :=
  if entry.2.isDelete then .ok (u.setUpdate entry.1 (.delete txHeight))
  else
    match entry.2.value with
    | none => .error (.panic "Nil value not allowed. Instead call 'Delete' function")
    | some value => .ok (u.setUpdate entry.1 (.put value entry.2.metadata txHeight))

def applyTxOps (txHeight : Height) :
    PublicAndHashUpdates → List (CompositeKey × KeyOps) → Outcome PublicAndHashUpdates
  | u, [] => .ok u
  | u, entry :: txops =>
    match applyKeyOps txHeight u entry with
    | .error failure => .error failure
    | .ok next => applyTxOps txHeight next txops

def applyWriteSet (u : PublicAndHashUpdates) (txRWSet : TxRwSet)
    (txHeight : Height) (db : DB) (containsPostOrderWrites : Bool) :
    Outcome PublicAndHashUpdates :=
  let marked := { u with
    containsPostOrderWrites := u.containsPostOrderWrites || containsPostOrderWrites }
  applyTxOps txHeight marked (prepareTxOps txRWSet marked db).entries

end FabricSequencer
