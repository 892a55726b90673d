import FabricSequencer.ReadWriteSet

/-!
# Summaries of range query results

`RangeQueryResultsHelper` collects the results of a range query.  Once more
than `maxDegree` of them are pending it hashes them into a leaf of a Merkle
tree, and the tree is completed upwards as far as possible with every leaf.

The hash function is a parameter.  The hash provider of the peer does not fail,
so the error it could return is not part of the model.
-/

namespace FabricSequencer

structure MerkleTree where
  tree : ℕ → List Bytes
  maxLevel : ℕ
  maxDegree : ℕ

def leafLevel : ℕ := 1

variable (hashFunc : Bytes → Bytes)

def computeCombinedHash (hashes : List Bytes) : Bytes :=
  hashFunc hashes.flatten

def emptyMerkleTree (maxDegree : ℕ) : MerkleTree where
  tree := fun _ => []
  maxLevel := 1
  maxDegree := maxDegree

def newMerkleTree (maxDegree : ℕ) : Outcome MerkleTree :=
  if maxDegree < 2 then
    .error (.error ("maxDegree [" ++ toString maxDegree ++
      "] should not be less than 2 in the merkle tree"))
  else .ok (emptyMerkleTree maxDegree)

namespace MerkleTree

variable (m : MerkleTree)

def append (level : ℕ) (hash : Bytes) : MerkleTree :=
  { m with tree := Function.update m.tree level (m.tree level ++ [hash]) }

def delete (level : ℕ) : MerkleTree :=
  { m with tree := Function.update m.tree level [] }

/-- The loop of `update`.  A level above `maxLevel` is empty, so the loop ends
after as many turns as there are levels and one more. -/
def complete (hashFunc : Bytes → Bytes) : ℕ → ℕ → MerkleTree → MerkleTree
  | 0, _, m => m
  | fuel + 1, currentLevel, m =>
    let currentLevelHashes := m.tree currentLevel
    if uint32 currentLevelHashes.length ≤ m.maxDegree then m
    else
      let nextLevelHash := computeCombinedHash hashFunc currentLevelHashes
      let raised := (m.delete currentLevel).append (currentLevel + 1) nextLevelHash
      complete hashFunc fuel (currentLevel + 1)
        { raised with maxLevel := max raised.maxLevel (currentLevel + 1) }

def update (nextLeafLevelHash : Bytes) : MerkleTree :=
  complete hashFunc (m.maxLevel + 2) leafLevel (m.append leafLevel nextLeafLevelHash)

/-- The loop of `done` over the levels below `maxLevel`. -/
def liftLevels (hashFunc : Bytes → Bytes) : ℕ → ℕ → MerkleTree → MerkleTree
  | 0, _, m => m
  | count + 1, currentLevel, m =>
    match m.tree currentLevel with
    | [] => liftLevels hashFunc count (currentLevel + 1) m
    | [hash] =>
      liftLevels hashFunc count (currentLevel + 1)
        ((m.delete currentLevel).append (currentLevel + 1) hash)
    | first :: second :: rest =>
      let hash := computeCombinedHash hashFunc (first :: second :: rest)
      liftLevels hashFunc count (currentLevel + 1)
        ((m.delete currentLevel).append (currentLevel + 1) hash)

def done : MerkleTree :=
  let lifted := liftLevels hashFunc (m.maxLevel - leafLevel) leafLevel m
  let finalHashes := lifted.tree lifted.maxLevel
  if uint32 finalHashes.length > lifted.maxDegree then
    let raised := lifted.delete lifted.maxLevel
    { raised with
      maxLevel := lifted.maxLevel + 1
      tree := Function.update raised.tree (lifted.maxLevel + 1)
        [computeCombinedHash hashFunc finalHashes] }
  else lifted

def getSummery : QueryReadsMerkleSummary where
  maxDegree := m.maxDegree
  maxLevel := m.maxLevel
  maxLevelHashes := m.tree m.maxLevel

def isEmpty (m : MerkleTree) : Bool := m.maxLevel == 1 && (m.tree m.maxLevel).isEmpty

end MerkleTree

structure RangeQueryResultsHelper where
  pendingResults : List KVRead
  mt : MerkleTree
  maxDegree : ℕ
  hashingEnabled : Bool

def newRangeQueryResultsHelper (enableHashing : Bool) (maxDegree : ℕ) :
    Outcome RangeQueryResultsHelper :=
  if enableHashing then do
    let mt ← newMerkleTree maxDegree
    pure { pendingResults := [], mt := mt, maxDegree := maxDegree,
           hashingEnabled := true }
  else
    .ok { pendingResults := [], mt := emptyMerkleTree maxDegree,
          maxDegree := maxDegree, hashingEnabled := false }

namespace RangeQueryResultsHelper

variable (helper : RangeQueryResultsHelper)

def processPendingResults : RangeQueryResultsHelper :=
  { helper with
    pendingResults := []
    mt := helper.mt.update hashFunc (hashFunc (serializeKVReads helper.pendingResults)) }

def addResult (kvRead : KVRead) : RangeQueryResultsHelper :=
  let added :=
    { helper with pendingResults := helper.pendingResults ++ [kvRead] }
  if added.hashingEnabled ∧ uint32 added.pendingResults.length > added.maxDegree then
    added.processPendingResults hashFunc
  else added

def getMerkleSummary : QueryReadsMerkleSummary :=
  helper.mt.getSummery

/-- `Done`: the pending results or, if any were hashed, the summary. -/
def done (hashFunc : Bytes → Bytes) (helper : RangeQueryResultsHelper) :
    List KVRead × Option QueryReadsMerkleSummary :=
  if !helper.hashingEnabled || helper.mt.isEmpty then
    (helper.pendingResults, none)
  else
    let processed :=
      if helper.pendingResults.length ≠ 0 then
        helper.processPendingResults hashFunc
      else helper
    (processed.pendingResults, some (processed.mt.done hashFunc).getSummery)

end RangeQueryResultsHelper

end FabricSequencer
