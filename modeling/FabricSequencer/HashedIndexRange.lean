import FabricSequencer.PvtDataIndex
import FabricSequencer.BlockVerification
import FabricSequencer.OrderPreserving

/-!
# The range of a purge marker

The store finds what a purge marker covers by a scan of the encoded keys of the
hashed index, and cuts the key of the data out of each.
-/

namespace FabricSequencer.Pvtdatastorage

open List LedgerUtil

def Height.toBytes (h : Height) : Bytes :=
  encodeOrderPreservingVarUint64 h.blockNum ++ encodeOrderPreservingVarUint64 h.txNum

def newHeightFromBytes (b : Bytes) : Except String (Height × ℕ) := do
  let (blockNum, n1) ← decodeOrderPreservingVarUint64 b
  let (txNum, n2) ← decodeOrderPreservingVarUint64 (b.drop n1)
  pure (⟨blockNum, txNum⟩, n1 + n2)

def encodeHashedIndexKey (k : HashedIndexKey) : Bytes :=
  98 :: k.ns ++ 0 :: (k.coll ++ 0 :: (k.pvtkeyHash ++ Height.toBytes k.height))

def encodePurgeMarkerKey (k : PurgeMarkerKey) : Bytes := 99 :: k.ns ++ 0 :: (k.coll ++ 0 :: k.key)

def encodePurgeMarkerVal (v : Height) : Bytes := Height.toBytes v

def encodeDataKey (key : DataKey) : Bytes :=
  2 :: (Height.toBytes key.height ++ key.ns ++ 0 :: key.coll)

def driveHashedIndexKeyRangeFromPurgeMarker (purgeMarkerKey purgeMarkerVal : Bytes) :
    Except String (Bytes × Bytes) := do
  let startKey := 98 :: purgeMarkerKey.tail
  let (version, _) ← newHeightFromBytes purgeMarkerVal
  pure (startKey, startKey ++ Height.toBytes { version with txNum := uint64 (version.txNum + 1) })

/-- The key is cut at its first two zero bytes and 32 bytes after them. -/
def deriveDataKeyFromEncodedHashedIndexKey (encHashedIndexKey : Bytes) : Outcome Bytes :=
  let (named, rest) := encHashedIndexKey.span (· ≠ 0)
  let (coll, rest) := rest.tail.span (· ≠ 0)
  if rest = [] then
    .error (.error ("unexpected bytes [" ++ Deliverclient.hexEncode encHashedIndexKey ++
      "] for HashedIndexed key"))
  else if named = [] ∨ rest.length < 33 then .error (.panic "slice bounds out of range")
  else .ok (2 :: (rest.drop 33 ++ named.tail ++ 0 :: coll))

/-- Names without the separator and a hash of 32 bytes. -/
def EncodableKey (k : PurgeMarkerKey) : Prop := 0 ∉ k.ns ∧ 0 ∉ k.coll ∧ k.key.length = 32

theorem newHeightFromBytes_toBytes {h : Height} (hb : h.blockNum < 2 ^ 64)
    (htx : h.txNum < 2 ^ 64) :
    newHeightFromBytes (Height.toBytes h) = .ok (h, (Height.toBytes h).length) := by
  have hrd := decode_encode htx []
  rw [append_nil] at hrd
  simp [newHeightFromBytes, Height.toBytes, decode_encode hb, hrd, bind, Except.bind, pure,
    Except.pure]

variable {x y : Bytes}

theorem span_append (hx : 0 ∉ x) : (x ++ 0 :: y).span (· ≠ 0) = (x, 0 :: y) := by
  have ha : ∀ b ∈ x, decide (b ≠ 0) = true := by
    intro b hb
    simpa using ne_of_mem_of_not_mem hb hx
  rw [span_eq_takeWhile_dropWhile, takeWhile_append_of_pos ha, dropWhile_append_of_pos ha]
  simp

theorem append_zero_inj {x' y' : Bytes} (hx : 0 ∉ x) (hx' : 0 ∉ x') :
    x ++ 0 :: y = x' ++ 0 :: y' ↔ x = x' ∧ y = y' := by
  constructor
  · intro heq
    have hsp := congrArg (span (· ≠ 0)) heq
    rw [span_append hx, span_append hx'] at hsp
    simpa using hsp
  · rintro ⟨rfl, rfl⟩
    rfl

theorem derive_append {coll hash ht : Bytes} (hx : 0 ∉ x) (hne : x ≠ []) (hco : 0 ∉ coll)
    (hhs : hash.length = 32) :
    deriveDataKeyFromEncodedHashedIndexKey (x ++ 0 :: (coll ++ 0 :: (hash ++ ht))) =
      .ok (2 :: (ht ++ x.tail ++ 0 :: coll)) := by
  unfold deriveDataKeyFromEncodedHashedIndexKey
  simp only [span_append hx, tail_cons, span_append hco]
  rw [if_neg (cons_ne_nil _ _), if_neg, drop_succ_cons, drop_left' hhs]
  simp [hne, hhs]

/-- The keys of the index in the range of a purge marker are those of the marked key up to the
height of the marker, and the data key is cut out of the encoded key. -/
theorem hashedIndexRange_iff {marker : PurgeMarkerKey} {h : Height} (hmark : EncodableKey marker)
    (hblk : h.blockNum < 2 ^ 64) (htx : h.txNum + 1 < 2 ^ 64) :
    ∃ start stop, driveHashedIndexKeyRangeFromPurgeMarker (encodePurgeMarkerKey marker)
        (encodePurgeMarkerVal h) = .ok (start, stop) ∧
      ∀ k : HashedIndexKey, EncodableKey k.markerKey → k.blkNum < 2 ^ 64 → k.txNum < 2 ^ 64 →
        (¬ encodeHashedIndexKey k < start ∧ encodeHashedIndexKey k < stop ↔
          k.markerKey = marker ∧ k.height.compare h ≤ 0) ∧
        deriveDataKeyFromEncodedHashedIndexKey (encodeHashedIndexKey k) =
          .ok (encodeDataKey k.dataKey) := by
  obtain ⟨ns, coll, hash⟩ := marker
  obtain ⟨hns, hco, hhs⟩ := hmark
  refine ⟨98 :: ns ++ 0 :: (coll ++ 0 :: hash), 98 :: ns ++ 0 :: (coll ++ 0 :: hash) ++
    Height.toBytes ⟨h.blockNum, h.txNum + 1⟩, ?_, ?_⟩
  · rw [driveHashedIndexKeyRangeFromPurgeMarker, encodePurgeMarkerVal,
      newHeightFromBytes_toBytes hblk (by omega), ← uint64_of_lt htx]
    rfl
  rintro ⟨ns', coll', hash', bn, tn⟩ ⟨hns', hco', hhs'⟩ hblk' htx'
  dsimp only [HashedIndexKey.markerKey] at hns' hco' hhs' hblk' htx' hns hco hhs ⊢
  constructor
  · have hlt := encode_append_lt (x := []) (y := []) htx' htx
    rw [append_nil, append_nil] at hlt
    have hsr : ∀ t, encodeHashedIndexKey ⟨ns', coll', hash', bn, tn⟩ =
        98 :: ns ++ 0 :: (coll ++ 0 :: hash) ++ t ↔
        (ns' = ns ∧ coll' = coll ∧ hash' = hash) ∧ t = Height.toBytes ⟨bn, tn⟩ := by
      intro t
      simp only [encodeHashedIndexKey, cons_append, append_assoc, cons.injEq, true_and,
        append_zero_inj hns' hns, append_zero_inj hco' hco, HashedIndexKey.height]
      constructor
      · rintro ⟨rfl, rfl, heq⟩
        obtain ⟨rfl, rfl⟩ := append_inj heq (hhs'.trans hhs.symm)
        exact ⟨⟨rfl, rfl, rfl⟩, rfl⟩
      · rintro ⟨⟨rfl, rfl, rfl⟩, rfl⟩
        exact ⟨rfl, rfl, rfl⟩
    rw [mem_range_iff, Height.compare_nonpos_iff]
    simp only [hsr, and_assoc, exists_and_left, exists_eq_left, Height.toBytes,
      encode_append_lt hblk' hblk, hlt, HashedIndexKey.height, CompositeKey.mk.injEq,
      Nat.lt_succ_iff]
    tauto
  · exact derive_append (by simpa using hns') (cons_ne_nil _ _) hco' hhs'

def zeroMarker : PurgeMarkerKey := ⟨[1], [1], replicate 32 0⟩

def zeroKey : HashedIndexKey := ⟨[1], [1], replicate 32 0, 5, 0⟩

theorem encodable_zeroMarker : EncodableKey zeroMarker := by
  simp [EncodableKey, zeroMarker]

theorem hashedIndexRange_sample :
    EncodableKey zeroMarker ∧ ∃ start stop, driveHashedIndexKeyRangeFromPurgeMarker
      (encodePurgeMarkerKey zeroMarker) (encodePurgeMarkerVal ⟨5, 3⟩) = .ok (start, stop) := by
  obtain ⟨start, stop, hrn, -⟩ := hashedIndexRange_iff (h := ⟨5, 3⟩) encodable_zeroMarker
    (by norm_num) (by norm_num)
  exact ⟨encodable_zeroMarker, start, stop, hrn⟩

/-- After the last number of a transaction comes 0. -/
theorem lastTransaction_not_inRange :
    EncodableKey zeroMarker ∧ zeroKey.markerKey = zeroMarker ∧
      zeroKey.height.compare ⟨5, 2 ^ 64 - 1⟩ ≤ 0 ∧
      (driveHashedIndexKeyRangeFromPurgeMarker (encodePurgeMarkerKey zeroMarker)
        (encodePurgeMarkerVal ⟨5, 2 ^ 64 - 1⟩)).map
          (fun range => decide (encodeHashedIndexKey zeroKey < range.2)) = .ok false := by
  refine ⟨encodable_zeroMarker, rfl, by decide, ?_⟩
  decide

end FabricSequencer.Pvtdatastorage
