import FabricSequencer.BlockVerification
import FabricSequencer.OrderPreserving

/-!
# The index of transaction IDs

The index has a key for each transaction, of its ID and its position.  Lookups
scan the keys of an ID; a snapshot keeps each ID once, and the index made from
it knows only which IDs exist.  The other parts of the index and the encoding
of the snapshot's files are left out.
-/

namespace FabricSequencer.Blkstorage

open List LedgerUtil
open SortedMap (get_eq_some_iff mem_of_get_insertAll exists_get_insertAll mem_keys_iff)

def txIDPrefix (txID : GoString) : Bytes :=
  116 :: (encodeOrderPreservingVarUint64 txID.length ++ txID)

def constructTxIDKey (txID : GoString) (blkNum txNum : ℕ) : Bytes :=
  txIDPrefix txID ++ (encodeOrderPreservingVarUint64 blkNum ++ encodeOrderPreservingVarUint64 txNum)

def retrieveTxID (encodedTxIDKey : Bytes) : Except String GoString :=
  let key := "invalid txIDKey \x7b" ++ Deliverclient.hexEncode encodedTxIDKey ++ "\x7d"
  match encodedTxIDKey with
  | [] => .error "invalid txIDKey - zero-length slice"
  | first :: remainingBytes =>
    if first ≠ 116 then .error (key ++ " - unexpected prefix")
    else
      match decodeOrderPreservingVarUint64 remainingBytes with
      | .error text => .error (key ++ ": " ++ text)
      | .ok (txIDLen, n) =>
        if (remainingBytes.drop n).length ≤ txIDLen then .error (key ++ ", fewer bytes present")
        else .ok ((remainingBytes.drop n).take txIDLen)

variable {V : Type}

/-- The part of the index for transaction IDs; an imported ID has no value. -/
abbrev TxIDIndex (V : Type) := SortedMap Bytes (Option V)

structure BlockIdxInfo (V : Type) where
  blockNum : ℕ
  txs : List (GoString × V)

def BlockIdxInfo.txEntries (info : BlockIdxInfo V) : List (Bytes × Option V) :=
  info.txs.zipIdx.map fun tx => (constructTxIDKey tx.1.1 info.blockNum tx.2, some tx.1.2)

def indexBlocks (blocks : List (BlockIdxInfo V)) : TxIDIndex V :=
  blocks.foldl (fun index info => index.insertAll info.txEntries) SortedMap.empty

/-- The keys that the iterator of `constructTxIDRangeScan` visits. -/
def inTxIDRange (txID : GoString) (key : Bytes) : Bool :=
  ¬ key < txIDPrefix txID ∧ key < txIDPrefix txID ++ [255]

def TxIDIndex.scan (index : TxIDIndex V) (txID : GoString) : List (Bytes × Option V) :=
  (index.restrict (inTxIDRange txID)).entries

def txIDExists (index : TxIDIndex V) (txID : GoString) : Bool := !(index.scan txID).isEmpty

def getTxIDVal (index : TxIDIndex V) (txID : GoString) : Except String (V × ℕ) :=
  match index.scan txID with
  | [] => .error ("no such transaction ID [" ++ printed txID ++ "] in index")
  | (_, none) :: _ => .error ""
  | (key, some val) :: _ =>
    match decodeOrderPreservingVarUint64 (key.drop (txIDPrefix txID).length) with
    | .error text => .error ("error while decoding block number from txID index key: " ++ text)
    | .ok (blockNum, _) => .ok (val, blockNum)

def uniqueTxIDs (previousTxID : GoString) : List Bytes → Except String (List GoString)
  | [] => .ok []
  | key :: keys => do
    let txID ← retrieveTxID key
    if previousTxID = txID then uniqueTxIDs previousTxID keys
    else return txID :: (← uniqueTxIDs txID keys)

/-- No file is written when there is no ID to write.  The data file, which has the IDs one after
the other, and the metadata file, which has their number, are the list: reading them gives back
what was written. -/
def exportUniqueTxIDs (index : TxIDIndex V) : Except String (Option (List GoString)) := do
  let txIDs ← uniqueTxIDs [] index.keys
  return if txIDs = [] then none else some txIDs

def importTxIDsFromSnapshot (lastBlockNumInSnapshot : ℕ) (txIDs : List GoString) : TxIDIndex V :=
  SortedMap.empty.insertAll (txIDs.zipIdx.map fun txID =>
    (constructTxIDKey txID.1 lastBlockNumInSnapshot txID.2, none))

/-! ## Keys -/

variable {txID other : GoString} {b i : ℕ}

theorem inTxIDRange_iff (hl : txID.length < 2 ^ 64) (ho : other.length < 2 ^ 64) :
    inTxIDRange txID (constructTxIDKey other b i) = true ↔ other = txID := by
  have hla : ∀ x : Bytes, encodeOrderPreservingVarUint64 b ++ x < [255] := by
    intro x
    obtain ⟨c, hc, hdr, -⟩ := exists_dropWhile_bigEndian b 8
    rw [encodeOrderPreservingVarUint64, hdr, length_bigEndian,
      ProtoWire.appendVarint_of_lt (by omega), append_assoc, singleton_append, cons_lt_cons_iff]
    refine .inl ?_
    rw [Fin.lt_def, ProtoWire.octet_val]
    change c % 256 < 255
    omega
  rw [inTxIDRange, decide_eq_true_iff, mem_range_iff, constructTxIDKey]
  constructor
  · rintro ⟨t, heq, -⟩
    rw [txIDPrefix, txIDPrefix, cons_append, cons_append, cons.injEq, append_assoc,
      append_assoc] at heq
    have hrd := decode_encode ho (other ++ (encodeOrderPreservingVarUint64 b ++
      encodeOrderPreservingVarUint64 i))
    rw [heq.2, decode_encode hl, Except.ok.injEq, Prod.mk.injEq] at hrd
    rw [hrd.1] at heq
    exact (append_inj (append_cancel_left heq.2) hrd.1.symm).1
  · rintro rfl
    exact ⟨_, rfl, hla _⟩

theorem retrieveTxID_construct (hl : txID.length < 2 ^ 64) :
    retrieveTxID (constructTxIDKey txID b i) = .ok txID := by
  have hne : encodeOrderPreservingVarUint64 b ≠ [] := by
    simp [encodeOrderPreservingVarUint64, ← length_pos_iff, ProtoWire.appendVarint_length_pos]
  rw [constructTxIDKey, txIDPrefix, cons_append, append_assoc, retrieveTxID]
  simp [decode_encode hl, hne]

/-! ## The index -/

/-- The transaction is in a block of the sequence, with this value. -/
def Occurs (blocks : List (BlockIdxInfo V)) (txID : GoString) (b i : ℕ) (v : V) : Prop :=
  ∃ info ∈ blocks, info.blockNum = b ∧ info.txs[i]? = some (txID, v)

/-- The numbers and lengths are of 64 bits. -/
def Fits (blocks : List (BlockIdxInfo V)) : Prop :=
  ∀ ⦃txID b i v⦄, Occurs blocks txID b i v → txID.length < 2 ^ 64 ∧ b < 2 ^ 64 ∧ i < 2 ^ 64

variable {blocks : List (BlockIdxInfo V)} {es : List (Bytes × Option V)}

theorem txIDExists_insertAll :
    txIDExists (SortedMap.empty.insertAll es) txID = true ↔
      ∃ e ∈ es, inTxIDRange txID e.1 = true := by
  have hsc : txIDExists (SortedMap.empty.insertAll es) txID = true ↔
      ∃ e ∈ (SortedMap.empty.insertAll es).entries, inTxIDRange txID e.1 = true := by
    simp [txIDExists, TxIDIndex.scan, SortedMap.restrict]
  rw [hsc]
  constructor
  · rintro ⟨⟨key, v⟩, hmem, hin⟩
    rcases mem_of_get_insertAll (get_eq_some_iff.mpr hmem) with hes | ⟨-, hn⟩
    · exact ⟨_, hes, hin⟩
    · cases hn
  · rintro ⟨⟨key, v⟩, hmem, hin⟩
    obtain ⟨la, hg, -⟩ := exists_get_insertAll SortedMap.empty hmem
    exact ⟨(key, la), get_eq_some_iff.mp hg, hin⟩

theorem indexBlocks_eq :
    indexBlocks blocks = SortedMap.empty.insertAll (blocks.flatMap BlockIdxInfo.txEntries) :=
  foldl_flatMap.symm

theorem mem_txEntries {e : Bytes × Option V} :
    e ∈ blocks.flatMap BlockIdxInfo.txEntries ↔
      ∃ txID b i v, Occurs blocks txID b i v ∧ e = (constructTxIDKey txID b i, some v) := by
  simp only [mem_flatMap, BlockIdxInfo.txEntries, mem_map, Occurs, mem_zipIdx_iff_getElem?,
    Prod.exists]
  grind

theorem txIDExists_indexBlocks (hft : Fits blocks) (hl : txID.length < 2 ^ 64) :
    txIDExists (indexBlocks blocks) txID = true ↔ ∃ b i v, Occurs blocks txID b i v := by
  rw [indexBlocks_eq, txIDExists_insertAll]
  constructor
  · rintro ⟨e, hm, hin⟩
    obtain ⟨other, b, i, v, hc, rfl⟩ := mem_txEntries.mp hm
    rw [inTxIDRange_iff hl (hft hc).1] at hin
    exact ⟨b, i, v, hin ▸ hc⟩
  · rintro ⟨b, i, v, hc⟩
    exact ⟨_, mem_txEntries.mpr ⟨_, _, _, _, hc, rfl⟩, (inTxIDRange_iff hl hl).mpr rfl⟩

theorem txIDExists_import {la : ℕ} {txIDs : List GoString} (hl : txID.length < 2 ^ 64)
    (ha : ∀ other ∈ txIDs, other.length < 2 ^ 64) :
    txIDExists (importTxIDsFromSnapshot la txIDs : TxIDIndex V) txID = true ↔ txID ∈ txIDs := by
  rw [importTxIDsFromSnapshot, txIDExists_insertAll]
  simp only [mem_map, mem_zipIdx_iff_getElem?, Prod.exists]
  constructor
  · rintro ⟨_, _, ⟨other, i, hg, heq⟩, hin⟩
    obtain ⟨rfl, -⟩ := Prod.mk.inj heq
    have hm := mem_of_getElem? hg
    rw [inTxIDRange_iff hl (ha other hm)] at hin
    exact hin ▸ hm
  · intro hm
    obtain ⟨i, hg⟩ := mem_iff_getElem?.mp hm
    exact ⟨_, _, ⟨_, i, hg, rfl⟩, (inTxIDRange_iff hl hl).mpr rfl⟩

theorem mem_entries_indexBlocks {key : Bytes} {val : Option V}
    (hm : (key, val) ∈ (indexBlocks blocks).entries) :
    ∃ txID b i v, Occurs blocks txID b i v ∧ key = constructTxIDKey txID b i ∧ val = some v := by
  rw [indexBlocks_eq, ← get_eq_some_iff] at hm
  rcases mem_of_get_insertAll hm with hes | ⟨-, hn⟩
  · simpa using mem_txEntries.mp hes
  · cases hn

theorem mem_keys_indexBlocks {v : V} (hc : Occurs blocks txID b i v) :
    constructTxIDKey txID b i ∈ (indexBlocks blocks).keys := by
  rw [mem_keys_iff, indexBlocks_eq]
  obtain ⟨val, hg, -⟩ := exists_get_insertAll SortedMap.empty
    (mem_txEntries.mpr ⟨_, _, _, _, hc, rfl⟩)
  exact ⟨val, hg⟩

/-- The first key of the range is the one of the lowest position. -/
theorem getTxIDVal_indexBlocks (hfits : Fits blocks) (hl : txID.length < 2 ^ 64)
    (hex : ∃ b i v, Occurs blocks txID b i v) :
    ∃ b i v, Occurs blocks txID b i v ∧
      (∀ b' i' v', Occurs blocks txID b' i' v' → b < b' ∨ b = b' ∧ i ≤ i') ∧
      getTxIDVal (indexBlocks blocks) txID = .ok (v, b) := by
  have hsorted := ((indexBlocks blocks).restrict (inTxIDRange txID)).sorted
  have hexists := (txIDExists_indexBlocks hfits hl).mpr hex
  have hin : ∀ e ∈ (indexBlocks blocks).scan txID, _ := fun e he => mem_filter.mp he
  cases hscan : (indexBlocks blocks).scan txID with
  | nil => simp [txIDExists, hscan] at hexists
  | cons e es =>
    obtain ⟨key, val⟩ := e
    obtain ⟨hm, hrange⟩ := hin (key, val) (by simp [hscan])
    obtain ⟨other, b, i, v, hc, rfl, rfl⟩ := mem_entries_indexBlocks hm
    obtain rfl := (inTxIDRange_iff hl (hfits hc).1).mp hrange
    refine ⟨b, i, v, hc, ?_, ?_⟩
    · intro b' i' v' hc'
      by_contra hless
      have hlt : constructTxIDKey other b' i' < constructTxIDKey other b i := by
        refine append_left_lt ?_
        have htx := encode_append_lt (x := []) (y := []) (hfits hc').2.2 (hfits hc).2.2
        rw [append_nil, append_nil] at htx
        rw [encode_append_lt (hfits hc').2.1 (hfits hc).2.1, htx]
        omega
      obtain ⟨val, hg⟩ := mem_keys_iff.mp (mem_keys_indexBlocks hc')
      have hs : (constructTxIDKey other b' i', val) ∈ (indexBlocks blocks).scan other :=
        mem_filter.mpr ⟨get_eq_some_iff.mp hg, (inTxIDRange_iff hl hl).mpr rfl⟩
      change ((indexBlocks blocks).scan other).Pairwise _ at hsorted
      rw [hscan] at hs hsorted
      rcases mem_cons.mp hs with heq | hlat
      · exact lt_irrefl _ ((Prod.mk.inj heq).1 ▸ hlt)
      · exact lt_asymm hlt ((pairwise_cons.mp hsorted).1 _ hlat)
    · simp only [getTxIDVal, hscan, constructTxIDKey, drop_left, decode_encode (hfits hc).2.1]

/-! ## Export and import -/

theorem txID_eq_of_construct {b' i' : ℕ} (hl : txID.length < 2 ^ 64) (ho : other.length < 2 ^ 64)
    (heq : constructTxIDKey txID b i = constructTxIDKey other b' i') : txID = other := by
  have hrd := retrieveTxID_construct (b := b) (i := i) hl
  rw [heq, retrieveTxID_construct ho] at hrd
  exact (Except.ok.inj hrd).symm

theorem construct_nil_lt {b' i' : ℕ} (hl : txID.length < 2 ^ 64) (hne : txID ≠ []) :
    constructTxIDKey [] b i < constructTxIDKey txID b' i' := by
  rw [constructTxIDKey, constructTxIDKey, txIDPrefix, txIDPrefix, cons_append, cons_append,
    append_assoc, append_assoc, cons_lt_cons_iff]
  exact .inr ⟨rfl, (encode_append_lt (by simp) hl).mpr (.inl (length_pos_iff.mpr hne))⟩

/-- The IDs of the keys, without the empty one, which is the previous ID at the start. -/
theorem uniqueTxIDs_spec {ks : List Bytes} (hsorted : ks.Pairwise (· < ·))
    (hkeys : ∀ key ∈ ks, ∃ txID b i, txID.length < 2 ^ 64 ∧ key = constructTxIDKey txID b i)
    (previous : GoString) :
    ∃ out, uniqueTxIDs previous ks = .ok out ∧
      (∀ txID ∈ out, txID.length < 2 ^ 64 ∧ ∃ b i, constructTxIDKey txID b i ∈ ks) ∧
      (∀ txID b i, txID.length < 2 ^ 64 → constructTxIDKey txID b i ∈ ks →
        txID ∈ out ∨ txID = previous) ∧
      ((previous = [] ∨ ∀ b i, constructTxIDKey [] b i ∉ ks) → [] ∉ out) := by
  induction ks generalizing previous with
  | nil => exact ⟨[], rfl, by simp⟩
  | cons key ks ih =>
    obtain ⟨txID, b, i, hlength, rfl⟩ := hkeys key mem_cons_self
    obtain ⟨hbelow, hsorted⟩ := pairwise_cons.mp hsorted
    obtain ⟨out, htail, hfrom, hall, hnil⟩ :=
      ih hsorted (fun key hkey => hkeys key (mem_cons_of_mem _ hkey)) txID
    have hsame := fun other b' i' hother =>
      @txID_eq_of_construct other txID b' i' b i hother hlength
    have hnotNil := fun b' i' (hkey : constructTxIDKey [] b' i' ∈ ks) hne =>
      lt_asymm (hbelow _ hkey) (construct_nil_lt hlength hne)
    rw [uniqueTxIDs, retrieveTxID_construct hlength]
    by_cases hprevious : previous = txID
    · subst hprevious
      exact ⟨out, by simpa [bind, Except.bind] using htail, by grind, by grind, by grind⟩
    · exact ⟨txID :: out, by simp [hprevious, htail, bind, Except.bind, pure, Except.pure], by grind,
        by grind, by grind⟩

def LooksUp (blocks : List (BlockIdxInfo V)) (txID : GoString) : Prop :=
  (txIDExists (indexBlocks blocks) txID = true ↔ ∃ b i v, Occurs blocks txID b i v) ∧
    ((∃ b i v, Occurs blocks txID b i v) → ∃ b i v, Occurs blocks txID b i v ∧
      (∀ b' i' v', Occurs blocks txID b' i' v' → b < b' ∨ b = b' ∧ i ≤ i') ∧
      getTxIDVal (indexBlocks blocks) txID = .ok (v, b))

/-- Lookups are right for every sequence of blocks.  The export gives a file from which
the same IDs are imported exactly when there is an ID and none is empty. -/
theorem txIDIndex_iff (hfits : Fits blocks) (last : ℕ) :
    ((∀ txID, txID.length < 2 ^ 64 → LooksUp blocks txID) ∧
      ∃ txIDs, exportUniqueTxIDs (indexBlocks blocks) = .ok (some txIDs) ∧
        ∀ txID, txID.length < 2 ^ 64 →
          txIDExists (importTxIDsFromSnapshot last txIDs : TxIDIndex V) txID =
            txIDExists (indexBlocks blocks) txID) ↔
      (∃ txID b i v, Occurs blocks txID b i v) ∧ ∀ b i v, ¬ Occurs blocks [] b i v := by
  have hlk : ∀ txID, txID.length < 2 ^ 64 → LooksUp blocks txID := fun txID hlen =>
    ⟨txIDExists_indexBlocks hfits hlen, getTxIDVal_indexBlocks hfits hlen⟩
  have hky : ∀ key ∈ (indexBlocks blocks).keys, ∃ txID b i v, Occurs blocks txID b i v ∧
      key = constructTxIDKey txID b i := by
    intro key hkey
    obtain ⟨val, hget⟩ := mem_keys_iff.mp hkey
    obtain ⟨txID, b, i, v, hocc, heq, -⟩ := mem_entries_indexBlocks (get_eq_some_iff.mp hget)
    exact ⟨txID, b, i, v, hocc, heq⟩
  obtain ⟨out, hout, hsn, hall, hnil⟩ := uniqueTxIDs_spec (indexBlocks blocks).keys_sorted
    (fun key hkey => by
      obtain ⟨txID, b, i, v, hocc, heq⟩ := hky key hkey
      exact ⟨txID, b, i, (hfits hocc).1, heq⟩) []
  have hexp : exportUniqueTxIDs (indexBlocks blocks) =
      .ok (if out = [] then none else some out) := by
    rw [exportUniqueTxIDs, hout]
    rfl
  have hmem : ∀ txID, txID ∈ out ↔ txID ≠ [] ∧ ∃ b i v, Occurs blocks txID b i v := by
    intro txID
    constructor
    · intro hmem
      obtain ⟨hlen, b, i, hkey⟩ := hsn txID hmem
      obtain ⟨other, b', i', v, hocc, heq⟩ := hky _ hkey
      obtain rfl := txID_eq_of_construct hlen (hfits hocc).1 heq
      exact ⟨fun hemp => hnil (.inl rfl) (hemp ▸ hmem), b', i', v, hocc⟩
    · rintro ⟨hne, b, i, v, hocc⟩
      exact (hall txID b i (hfits hocc).1 (mem_keys_indexBlocks hocc)).resolve_right hne
  have himp : ∀ txID, txID.length < 2 ^ 64 →
      (txIDExists (importTxIDsFromSnapshot last out : TxIDIndex V) txID = true ↔ txID ∈ out) :=
    fun txID hlen => txIDExists_import hlen fun other hoth => (hsn other hoth).1
  rw [hexp]
  constructor
  · rintro ⟨-, txIDs, hfl, hag⟩
    obtain ⟨hne, rfl⟩ : out ≠ [] ∧ out = txIDs := by
      split_ifs at hfl with hemp
      · cases hfl
      · exact ⟨hemp, by simpa using hfl⟩
    obtain ⟨txID, hfr⟩ := exists_mem_of_ne_nil out hne
    refine ⟨⟨txID, ((hmem txID).mp hfr).2⟩, ?_⟩
    intro b i v hocc
    have hexs := (txIDExists_indexBlocks hfits (by simp)).mpr ⟨b, i, v, hocc⟩
    rw [← hag [] (by simp), himp [] (by simp), hmem] at hexs
    exact hexs.1 rfl
  · rintro ⟨⟨txID, b, i, v, hocc⟩, hnone⟩
    have hor : ∀ other, other ∈ out ↔ ∃ b i v, Occurs blocks other b i v := by
      intro other
      rw [hmem, and_iff_right_iff_imp]
      rintro ⟨b, i, v, hocc⟩ rfl
      exact hnone b i v hocc
    have hne : out ≠ [] := ne_nil_of_mem ((hor txID).mpr ⟨b, i, v, hocc⟩)
    refine ⟨hlk, out, by rw [if_neg hne], ?_⟩
    intro other hlen
    rw [Bool.eq_iff_iff, himp other hlen, hor, txIDExists_indexBlocks hfits hlen]

def oneBlock (txIDs : List GoString) : List (BlockIdxInfo Unit) := [⟨0, txIDs.map (·, ())⟩]

/-- The ID of the first transaction comes again in the next block. -/
def twoBlocks : List (BlockIdxInfo Unit) := [⟨0, [([1], ()), ([2], ())]⟩, ⟨1, [([1], ())]⟩]

theorem txIDIndex_iff_twoBlocks :
    (∀ txID, txID.length < 2 ^ 64 → LooksUp twoBlocks txID) ∧
      ∃ txIDs, exportUniqueTxIDs (indexBlocks twoBlocks) = .ok (some txIDs) ∧
        ∀ txID, txID.length < 2 ^ 64 →
          txIDExists (importTxIDsFromSnapshot 1 txIDs : TxIDIndex Unit) txID =
            txIDExists (indexBlocks twoBlocks) txID := by
  have hoccurs : ∀ {txID b i v}, Occurs twoBlocks txID b i v → txID.length = 1 ∧ b < 2 ∧ i < 2 := by
    rintro txID b i v ⟨info, hinfo, rfl, htx⟩
    have hlt := (List.getElem?_eq_some_iff.mp htx).1
    have htxs := mem_of_getElem? htx
    obtain rfl | rfl : info = ⟨0, [([1], ()), ([2], ())]⟩ ∨ info = ⟨1, [([1], ())]⟩ := by
      simpa [twoBlocks] using hinfo
    · simp_all
      grind
    · simp_all
  refine (txIDIndex_iff (fun txID b i v hocc => ?_) 1).mpr
    ⟨⟨[1], 0, 0, (), _, mem_cons_self, rfl, rfl⟩, fun b i v hocc => ?_⟩
  · obtain ⟨hlength, hb, hi⟩ := hoccurs hocc
    omega
  · simpa using (hoccurs hocc).1

/-- The empty ID of the first transaction is not exported. -/
theorem emptyTxID_not_exported :
    txIDExists (indexBlocks (oneBlock [[], [1]])) [] = true ∧
      exportUniqueTxIDs (indexBlocks (oneBlock [[], [1]])) = .ok (some [[1]]) ∧
      txIDExists (importTxIDsFromSnapshot 0 [[1]] : TxIDIndex Unit) [] = false := by
  refine ⟨?_, ?_, ?_⟩ <;> decide

end FabricSequencer.Blkstorage
