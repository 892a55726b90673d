import FabricSequencer.StateDatabase

/-!
# Read-write sets

The messages of a public read-write set as `TxRwSet.FromProtoBytes` builds
them: the elements of repeated fields are present, versions may be absent, and
an empty repeated field is nil.  Protobuf checks that string fields are valid
UTF-8 on both sides, so marshalling them back does not fail.

The private write set of a collection is a message of its own.  The public one
has the hash of its encoding, or nil if the collection is only read.
-/

namespace FabricSequencer

open ProtoWire

structure KVRead where
  key : GoString
  version : Option Height
deriving DecidableEq

structure KVWrite where
  key : GoString
  isDelete : Bool
  value : Bytes
deriving DecidableEq

structure KVMetadataEntry where
  name : GoString
  value : Bytes
deriving DecidableEq

structure KVMetadataWrite where
  key : GoString
  entries : List KVMetadataEntry
deriving DecidableEq

structure QueryReadsMerkleSummary where
  maxDegree : ℕ
  maxLevel : ℕ
  maxLevelHashes : List Bytes
deriving DecidableEq

/-- The oneof `reads_info`, which may be unset. -/
inductive ReadsInfo where
  | unset
  | rawReads (kvReads : List KVRead)
  | readsMerkleHashes (summary : QueryReadsMerkleSummary)
deriving DecidableEq

structure RangeQueryInfo where
  startKey : GoString
  endKey : GoString
  itrExhausted : Bool
  readsInfo : ReadsInfo
deriving DecidableEq

structure KVRWSet where
  reads : List KVRead
  rangeQueriesInfo : List RangeQueryInfo
  writes : List KVWrite
  metadataWrites : List KVMetadataWrite
deriving DecidableEq

structure KVReadHash where
  keyHash : GoString
  version : Option Height

structure KVWriteHash where
  keyHash : GoString
  isDelete : Bool
  valueHash : Bytes
  isPurge : Bool

structure KVMetadataWriteHash where
  keyHash : GoString
  entries : List KVMetadataEntry

structure HashedRWSet where
  hashedReads : List KVReadHash
  hashedWrites : List KVWriteHash
  metadataWrites : List KVMetadataWriteHash

structure CollHashedRwSet where
  collectionName : GoString
  hashedRwSet : HashedRWSet
  pvtRwSetHash : Option Bytes := none

structure NsRwSet where
  nameSpace : GoString
  kvRwSet : KVRWSet
  collHashedRwSets : List CollHashedRwSet

structure TxRwSet where
  nsRwSets : List NsRwSet

/-- `GetRawReads().GetKvReads()`. -/
def ReadsInfo.kvReads : ReadsInfo → List KVRead
  | .rawReads kvReads => kvReads
  | _ => []

def newKVRead (key : GoString) (version : Option Height) : KVRead where
  key := key
  version := version

def appendUintField (number value : ℕ) : Bytes :=
  if value = 0 then [] else appendVarint (number * 8) ++ appendVarint value

def appendMessageField (number : ℕ) (message : Bytes) : Bytes :=
  appendVarint (number * 8 + 2) ++ appendBytes message

def marshalVersion (version : Height) : Bytes :=
  appendUintField 1 version.blockNum ++ appendUintField 2 version.txNum

def marshalKVRead (read : KVRead) : Bytes :=
  appendBytesField 1 read.key ++
    match read.version with
    | none => []
    | some version => appendMessageField 2 (marshalVersion version)

def serializeKVReads (kvReads : List KVRead) : Bytes :=
  kvReads.flatMap fun read => appendMessageField 1 (marshalKVRead read)

def appendBoolField (number : ℕ) (value : Bool) : Bytes := appendUintField number value.toNat

def marshalMerkleSummary (summary : QueryReadsMerkleSummary) : Bytes :=
  appendUintField 1 summary.maxDegree ++ appendUintField 2 summary.maxLevel ++
    summary.maxLevelHashes.flatMap fun hash => appendMessageField 3 hash

def marshalReadsInfo : ReadsInfo → Bytes
  | .unset => []
  | .rawReads kvReads => appendMessageField 4 (serializeKVReads kvReads)
  | .readsMerkleHashes summary => appendMessageField 5 (marshalMerkleSummary summary)

def marshalRangeQueryInfo (info : RangeQueryInfo) : Bytes :=
  appendBytesField 1 info.startKey ++ appendBytesField 2 info.endKey ++
    appendBoolField 3 info.itrExhausted ++ marshalReadsInfo info.readsInfo

def marshalKVWrite (write : KVWrite) : Bytes :=
  appendBytesField 1 write.key ++ appendBoolField 2 write.isDelete ++ appendBytesField 3 write.value

def marshalMetadataEntry (entry : KVMetadataEntry) : Bytes :=
  appendBytesField 1 entry.name ++ appendBytesField 2 entry.value

/-- `statemetadata.Serialize`: a `KVMetadataWrite` without a key. -/
def serializeMetadata (entries : List KVMetadataEntry) : Bytes :=
  entries.flatMap fun entry =>
    appendMessageField 2 (marshalMetadataEntry entry)

def marshalKVMetadataWrite (write : KVMetadataWrite) : Bytes :=
  appendBytesField 1 write.key ++ serializeMetadata write.entries

def marshalKVRWSet (kvRwSet : KVRWSet) : Bytes :=
  (kvRwSet.reads.flatMap fun read =>
      appendMessageField 1 (marshalKVRead read)) ++
    (kvRwSet.rangeQueriesInfo.flatMap fun info =>
      appendMessageField 2 (marshalRangeQueryInfo info)) ++
    (kvRwSet.writes.flatMap fun write =>
      appendMessageField 3 (marshalKVWrite write)) ++
    kvRwSet.metadataWrites.flatMap fun write =>
      appendMessageField 4 (marshalKVMetadataWrite write)

end FabricSequencer
