import FabricSequencer.HashedIndexRange
import FabricSequencer.StatePurge

/-!
# Keys that sort by numbers

Expiry keys, heights and index keys are order-preserving numbers one after
another.  The keys of missing private data hold the complement of the block
number, so that a scan meets the latest block first.
-/

namespace FabricSequencer

open List LedgerUtil ProtoWire

namespace LedgerUtil

/-- The order `less` of 64-bit numbers is the order of their encodings, and a number is read back
from any bytes that begin with its encoding. -/
structure OrderedCode {ε : Type} (less : ℕ → ℕ → Prop) (encode : ℕ → Bytes)
    (decode : Bytes → Except ε (ℕ × ℕ)) : Prop where
  lt_iff : ∀ n < 2 ^ 64, ∀ m < 2 ^ 64, (encode n < encode m ↔ less n m)
  eq_of_prefix : ∀ n < 2 ^ 64, ∀ m < 2 ^ 64, encode n <+: encode m → n = m
  decode_append : ∀ n < 2 ^ 64, ∀ rest, decode (encode n ++ rest) = .ok (n, (encode n).length)

theorem orderedCode_of_append {ε : Type} {less : ℕ → ℕ → Prop} {encode : ℕ → Bytes}
    {decode : Bytes → Except ε (ℕ × ℕ)}
    (hlt : ∀ n < 2 ^ 64, ∀ m < 2 ^ 64, ∀ x y,
      encode n ++ x < encode m ++ y ↔ less n m ∨ n = m ∧ x < y)
    (hrd : ∀ n < 2 ^ 64, ∀ tl, decode (encode n ++ tl) = .ok (n, (encode n).length)) :
    OrderedCode less encode decode := by
  refine ⟨fun n hn m hm => by simpa using hlt n hn m hm [] [], ?_, hrd⟩
  rintro n hn m hm ⟨tl, heq⟩
  have hm := hrd m hm []
  rw [append_nil, ← heq, hrd n hn tl] at hm
  exact congrArg Prod.fst (Except.ok.inj hm)

/-- The numbers at the front of a key, and the bytes they take. -/
def decodeNumbers : ℕ → Bytes → Except String (List ℕ × ℕ)
  | 0, _ => .ok ([], 0)
  | count + 1, bytes => do
    let (n, consumed) ← decodeOrderPreservingVarUint64 bytes
    let (ns, more) ← decodeNumbers count (bytes.drop consumed)
    pure (n :: ns, consumed + more)

def encodeNumbers (ns : List ℕ) : Bytes := ns.flatMap encodeOrderPreservingVarUint64

variable {ns ms : List ℕ}

theorem encodeNumbers_lt (hns : ∀ n ∈ ns, n < 2 ^ 64) (hms : ∀ m ∈ ms, m < 2 ^ 64)
    (hl : ns.length = ms.length) : encodeNumbers ns < encodeNumbers ms ↔ ns < ms := by
  induction ns generalizing ms with
  | nil => simp_all [encodeNumbers, eq_comm]
  | cons n ns ih =>
    cases ms with
    | nil => cases hl
    | cons m ms =>
      rw [forall_mem_cons] at hns hms
      rw [encodeNumbers, encodeNumbers, flatMap_cons, flatMap_cons, encode_append_lt hns.1 hms.1,
        cons_lt_cons_iff]
      exact or_congr_right (and_congr_right' (ih hns.2 hms.2 (Nat.succ.inj hl)))

theorem decodeNumbers_append (hns : ∀ n ∈ ns, n < 2 ^ 64) (tl : Bytes) :
    decodeNumbers ns.length (encodeNumbers ns ++ tl) = .ok (ns, (encodeNumbers ns).length) := by
  induction ns with
  | nil => rfl
  | cons n ns ih =>
    rw [forall_mem_cons] at hns
    have htl := ih hns.2
    rw [encodeNumbers] at htl ⊢
    rw [length_cons, decodeNumbers, flatMap_cons, append_assoc, decode_encode hns.1]
    simp [bind, Except.bind, pure, Except.pure, htl]

end LedgerUtil

namespace Pvtstatepurgemgmt

def encodeExpiryInfoKey (expinfoKey : ExpiryInfoKey) : Bytes :=
  49 :: (encodeOrderPreservingVarUint64 expinfoKey.expiryBlk ++
    encodeOrderPreservingVarUint64 expinfoKey.committingBlk)

def decodeExpiryInfoKey (key : Bytes) : Except String ExpiryInfoKey := do
  let (expiryBlk, n) ← decodeOrderPreservingVarUint64 key.tail
  let (committingBlk, _) ← decodeOrderPreservingVarUint64 (key.drop (n + 1))
  pure ⟨committingBlk, expiryBlk⟩

end Pvtstatepurgemgmt

def Blkstorage.constructBlockNumTranNumKey (blockNum txNum : ℕ) : Bytes :=
  97 :: (encodeOrderPreservingVarUint64 blockNum ++ encodeOrderPreservingVarUint64 txNum)

namespace Pvtdatastorage

open Pvtstatepurgemgmt Blkstorage

/-- Numbers and tuples of numbers sort as their encodings do and are read back from them, and so
do heights, expiry keys and the keys of the transaction index. -/
theorem orderPreserving_keys :
    OrderedCode (· < ·) encodeOrderPreservingVarUint64 decodeOrderPreservingVarUint64 ∧
    (∀ ns ms : List ℕ, ns.length = ms.length → (∀ n ∈ ns, n < 2 ^ 64) → (∀ m ∈ ms, m < 2 ^ 64) →
      (encodeNumbers ns < encodeNumbers ms ↔ ns < ms) ∧ ∀ rest,
        decodeNumbers ns.length (encodeNumbers ns ++ rest) = .ok (ns, (encodeNumbers ns).length)) ∧
    ∀ b < 2 ^ 64, ∀ t < 2 ^ 64, ∀ b' < 2 ^ 64, ∀ t' < 2 ^ 64,
      (Height.toBytes ⟨b, t⟩ < Height.toBytes ⟨b', t'⟩ ↔ Height.compare ⟨b, t⟩ ⟨b', t'⟩ < 0) ∧
      (∀ rest, newHeightFromBytes (Height.toBytes ⟨b, t⟩ ++ rest) =
        .ok (⟨b, t⟩, (Height.toBytes ⟨b, t⟩).length)) ∧
      (encodeExpiryInfoKey ⟨b, t⟩ < encodeExpiryInfoKey ⟨b', t'⟩ ↔
        (⟨b, t⟩ : ExpiryInfoKey) < ⟨b', t'⟩) ∧
      decodeExpiryInfoKey (encodeExpiryInfoKey ⟨b, t⟩) = .ok ⟨b, t⟩ ∧
      (constructBlockNumTranNumKey b t < constructBlockNumTranNumKey b' t' ↔
        b < b' ∨ b = b' ∧ t < t') := by
  have hcode : OrderedCode (· < ·) encodeOrderPreservingVarUint64 decodeOrderPreservingVarUint64 :=
    orderedCode_of_append (fun n hn m hm x y => encode_append_lt hn hm) fun n hn => decode_encode hn
  refine ⟨hcode, fun ns ms hlen hns hms =>
    ⟨encodeNumbers_lt hns hms hlen, decodeNumbers_append hns⟩, ?_⟩
  intro b hb t ht b' hb' t' ht'
  refine ⟨?_, ?_, ?_, ?_, ?_⟩
  · rw [Height.toBytes, Height.toBytes, encode_append_lt hb hb', hcode.lt_iff t ht t' ht']
    simp only [Height.compare]
    split_ifs <;> simp <;> omega
  · intro rest
    simp [newHeightFromBytes, Height.toBytes, decode_encode hb, decode_encode ht, bind,
      Except.bind, pure, Except.pure]
  · rw [encodeExpiryInfoKey, encodeExpiryInfoKey, cons_lt_cons_iff, encode_append_lt ht ht',
      hcode.lt_iff b hb b' hb']
    change _ ↔ toLex (t, b) < toLex (t', b')
    simp [Prod.Lex.toLex_lt_toLex]
  · have hread := decode_encode hb []
    rw [append_nil] at hread
    simp [decodeExpiryInfoKey, encodeExpiryInfoKey, decode_encode ht, hread, bind, Except.bind,
      pure, Except.pure]
  · rw [constructBlockNumTranNumKey, constructBlockNumTranNumKey, cons_lt_cons_iff,
      encode_append_lt hb hb', hcode.lt_iff t ht t' ht']
    simp

/-! ## Reverse order -/

def encodeReverseOrderVarUint64 (number : ℕ) : Bytes :=
  let bytes := (bigEndian (2 ^ 64 - 1 - number) 8).dropWhile (· = 255)
  (appendVarint (8 - bytes.length)).take 1 ++ bytes

/-- The slices have no capacity beyond their length. -/
def decodeReverseOrderVarUint64 (bytes : Bytes) : Outcome (ℕ × ℕ) :=
  let numFFBytes := match consumeVarint bytes with
    | .error _ => 0
    | .ok (s, _) => s
  if 8 < numFFBytes ∨ bytes.length < 9 - numFFBytes then
    .error (.panic "slice bounds out of range")
  else
    let decodedBytes := replicate numFFBytes 255 ++ bytes.tail.take (8 - numFFBytes)
    .ok (2 ^ 64 - 1 - decodedBytes.foldl (fun number byte => number * 256 + byte.val) 0,
      9 - numFFBytes)

variable {n m z : ℕ} {x y : Bytes}

theorem bigEndian_complement (hz : n + z + 1 = 2 ^ 64) {k : ℕ} (hk : k ≤ 8) :
    bigEndian z k = (bigEndian n k).map (255 - ·) := by
  induction k with
  | zero => rfl
  | succ k ih =>
    have hp : 256 ^ k * (256 * 256 ^ (7 - k)) = 2 ^ 64 := by
      rw [← pow_succ', ← pow_add, show k + (7 - k + 1) = 8 by omega]
      norm_num
    have hd := Nat.mul_sub_div n (256 ^ k) (256 * 256 ^ (7 - k)) (by omega)
    have hlt : n / 256 ^ k < 256 * 256 ^ (7 - k) := by
      rw [Nat.div_lt_iff_lt_mul (by positivity), mul_comm, hp]
      omega
    rw [hp, show 2 ^ 64 - (n + 1) = z by omega] at hd
    rw [bigEndian, bigEndian, map_cons, ih (by omega), hd]
    congr 1
    generalize 256 ^ (7 - k) = p at hlt
    generalize n / 256 ^ k = q at hlt
    rw [Fin.ext_iff, Fin.sub_def]
    change (256 * p - (q + 1)) % 256 = (256 - q % 256 + 255) % 256
    omega

theorem exists_reverse (hz : n + z + 1 = 2 ^ 64) :
    ∃ c ≤ 8, encodeReverseOrderVarUint64 n = octet (8 - c) :: bigEndian z c ∧
      bigEndian z 8 = replicate (8 - c) 255 ++ bigEndian z c ∧
      n < 256 ^ c ∧ (c = 0 ∨ 256 ^ (c - 1) ≤ n) := by
  obtain ⟨c, hc, hdr, hn⟩ := exists_dropWhile_bigEndian n 8
  rw [Nat.mod_eq_of_lt (by norm_num; omega)] at hn
  have hff : (fun b : Byte => decide (b = 255)) ∘ (255 - ·) = fun b => decide (b = 0) := by
    funext b
    simp
  have hrs : (bigEndian z 8).dropWhile (· = 255) = bigEndian z c := by
    rw [bigEndian_complement hz le_rfl, bigEndian_complement hz hc, dropWhile_map, hff, hdr]
  refine ⟨c, hc, ?_, ?_, hn⟩
  · rw [encodeReverseOrderVarUint64, show 2 ^ 64 - 1 - n = z by omega, hrs, length_bigEndian,
      appendVarint_of_lt (by omega)]
    rfl
  · have hsp := takeWhile_append_dropWhile (p := (· = 255)) (l := bigEndian z 8)
    rw [hrs] at hsp
    have hl := congrArg length hsp
    rw [length_append, length_bigEndian, length_bigEndian] at hl
    rw [← hsp]
    congr 1
    rw [eq_replicate_iff]
    refine ⟨by omega, fun b hb => ?_⟩
    simpa using mem_takeWhile_imp hb

theorem mod_complement {c : ℕ} (hz : n + z + 1 = 2 ^ 64) (hc : c ≤ 8) (hn : n < 256 ^ c) :
    z % 256 ^ c = 256 ^ c - 1 - n := by
  have hw : 256 ^ c * 256 ^ (8 - c) = 2 ^ 64 := by
    rw [← pow_add, show c + (8 - c) = 8 by omega]
    norm_num
  obtain ⟨p, hp⟩ := Nat.exists_eq_add_of_le' (Nat.one_le_pow (8 - c) 256 (by decide))
  have hs : z = 256 ^ c * p + (256 ^ c - 1 - n) := by
    rw [hp, mul_add] at hw
    omega
  rw [hs, Nat.mul_add_mod, Nat.mod_eq_of_lt (by omega)]

theorem reverse_append_lt (hn : n < 2 ^ 64) (hm : m < 2 ^ 64) :
    encodeReverseOrderVarUint64 n ++ x < encodeReverseOrderVarUint64 m ++ y ↔
      n > m ∨ n = m ∧ x < y := by
  have hz : n + (2 ^ 64 - 1 - n) + 1 = 2 ^ 64 := by omega
  have hw : m + (2 ^ 64 - 1 - m) + 1 = 2 ^ 64 := by omega
  obtain ⟨c, hc, henc, -, hlt, hle⟩ := exists_reverse hz
  obtain ⟨d, hd, hend, -, hl, hlem⟩ := exists_reverse hw
  rw [henc, hend, cons_append, cons_append, cons_lt_cons_iff, Fin.lt_def, Fin.ext_iff, octet_val,
    octet_val, Nat.mod_eq_of_lt (by omega), Nat.mod_eq_of_lt (by omega)]
  rcases lt_trichotomy c d with hcd | rfl | hcd
  · have hp := Nat.pow_le_pow_right (show 0 < 256 by decide) (show c ≤ d - 1 by omega)
    omega
  · have hls : 256 ^ c - 1 - n < 256 ^ c - 1 - m ↔ n > m := by omega
    have hsm : 256 ^ c - 1 - n = 256 ^ c - 1 - m ↔ n = m := by omega
    rw [bigEndian_append_lt, mod_complement hz hc hlt, mod_complement hw hc hl, hls, hsm]
    simp
  · have hp := Nat.pow_le_pow_right (show 0 < 256 by decide) (show d ≤ c - 1 by omega)
    omega

theorem decode_reverse (hn : n < 2 ^ 64) (tl : Bytes) :
    decodeReverseOrderVarUint64 (encodeReverseOrderVarUint64 n ++ tl) =
      .ok (n, (encodeReverseOrderVarUint64 n).length) := by
  obtain ⟨z, hz⟩ : ∃ z, n + z + 1 = 2 ^ 64 := ⟨2 ^ 64 - 1 - n, by omega⟩
  obtain ⟨c, hc, henc, ha, -⟩ := exists_reverse hz
  have hrd : consumeVarint (octet (8 - c) :: (bigEndian z c ++ tl)) =
      .ok (8 - c, bigEndian z c ++ tl) := by
    have hrd := @consumeVarint_appendVarint (8 - c) (by omega) (bigEndian z c ++ tl)
    rwa [appendVarint_of_lt (by omega)] at hrd
  have hl := length_bigEndian z c
  have hval := foldl_bigEndian z 8 0
  rw [ha, Nat.mod_eq_of_lt (by norm_num; omega)] at hval
  have hbc : 2 ^ 64 - 1 - (0 * 256 ^ 8 + z) = n := by omega
  have hft : ¬ (8 < 8 - c ∨ c + tl.length + 1 < 9 - (8 - c)) := by omega
  rw [henc, cons_append, decodeReverseOrderVarUint64, hrd]
  dsimp only
  rw [length_cons, length_append, hl, if_neg hft, show 8 - (8 - c) = c by omega, tail_cons,
    take_left' hl, hval, hbc, length_cons, hl, show 9 - (8 - c) = c + 1 by omega]

/-! ## Missing data -/

def encodeElgMissingDataKey (group : Byte) (key : NsCollBlk) : Bytes :=
  group :: (encodeReverseOrderVarUint64 key.blkNum ++ (key.ns ++ 0 :: key.coll))

def encodeElgPrioMissingDataKey : NsCollBlk → Bytes := encodeElgMissingDataKey 4

def encodeElgDeprioMissingDataKey : NsCollBlk → Bytes := encodeElgMissingDataKey 8

def encodeInelgMissingDataKey (key : NsCollBlk) : Bytes :=
  5 :: (key.ns ++ 0 :: (key.coll ++ 0 :: encodeReverseOrderVarUint64 key.blkNum))

/-- `bytes.SplitN` at nil bytes, into at most `n + 1` parts. -/
def splitN : ℕ → Bytes → List Bytes
  | 0, s => [s]
  | n + 1, s =>
    match s.span (· ≠ 0) with
    | (part, []) => [part]
    | (part, _ :: rest) => part :: splitN n rest

def decodeElgMissingDataKey (keyBytes : Bytes) : Outcome NsCollBlk := do
  let (blkNum, numBytesConsumed) ← decodeReverseOrderVarUint64 keyBytes.tail
  let remaining := keyBytes.drop (numBytesConsumed + 1)
  match splitN (remaining.length + 1) remaining with
  | ns :: coll :: _ => .ok ⟨ns, coll, blkNum⟩
  | _ => .error (.panic "index out of range")

def decodeInelgMissingDataKey (keyBytes : Bytes) : Outcome NsCollBlk :=
  match splitN 2 keyBytes.tail with
  | [ns, coll, number] => do
    let (blkNum, _) ← decodeReverseOrderVarUint64 number
    pure ⟨ns, coll, blkNum⟩
  | _ => .error (.panic "index out of range")

theorem splitN_append (hx : 0 ∉ x) (k : ℕ) : splitN (k + 1) (x ++ 0 :: y) = x :: splitN k y := by
  rw [splitN, span_append hx]

theorem splitN_of_notMem (hx : 0 ∉ x) (k : ℕ) : splitN k x = [x] := by
  have ha : ∀ b ∈ x, decide (b ≠ 0) = true := by
    intro b hb
    simpa using ne_of_mem_of_not_mem hb hx
  cases k with
  | zero => rfl
  | succ k =>
    rw [splitN, span_eq_takeWhile_dropWhile, takeWhile_eq_self_iff.mpr ha,
      dropWhile_eq_nil_iff.mpr ha]

theorem notMem_of_splitN {k : ℕ} {tl : List Bytes} (hsp : splitN (k + 1) y = x :: tl) : 0 ∉ x := by
  have hx : x = y.takeWhile (· ≠ 0) := by
    rw [splitN, span_eq_takeWhile_dropWhile] at hsp
    cases hdr : y.dropWhile (· ≠ 0) with
    | nil =>
      rw [hdr] at hsp
      exact (cons.inj hsp).1.symm
    | cons =>
      rw [hdr] at hsp
      exact (cons.inj hsp).1.symm
  intro hm
  rw [hx] at hm
  simpa using mem_takeWhile_imp hm

theorem notMem_of_splitN_append {k : ℕ} {z : Bytes} {tl : List Bytes}
    (hsp : splitN (k + 2) (x ++ 0 :: y) = x :: z :: tl) : 0 ∉ x ∧ 0 ∉ z := by
  have hx := notMem_of_splitN hsp
  rw [splitN_append hx] at hsp
  exact ⟨hx, notMem_of_splitN (cons.inj hsp).2⟩

theorem decodeElg_iff (group : Byte) {key : NsCollBlk} (hb : key.blkNum < 2 ^ 64) :
    decodeElgMissingDataKey (encodeElgMissingDataKey group key) = .ok key ↔
      0 ∉ key.ns ∧ 0 ∉ key.coll := by
  obtain ⟨ns, coll, bn⟩ := key
  dsimp only at hb ⊢
  rw [decodeElgMissingDataKey, encodeElgMissingDataKey, tail_cons, decode_reverse hb]
  simp only [bind, Except.bind, drop_succ_cons, drop_left]
  rw [length_append, length_cons, ← add_assoc]
  constructor
  · intro hd
    cases hsp : splitN (ns.length + coll.length + 2) (ns ++ 0 :: coll) with
    | nil => simp [hsp] at hd
    | cons part tl =>
      cases tl with
      | nil => simp [hsp] at hd
      | cons other tl =>
        simp only [hsp, Except.ok.injEq, NsCollBlk.mk.injEq, and_true] at hd
        obtain ⟨rfl, rfl⟩ := hd
        exact notMem_of_splitN_append hsp
  · rintro ⟨hns, hco⟩
    rw [splitN_append hns, splitN_of_notMem hco]

theorem decodeInelg_iff {key : NsCollBlk} (hb : key.blkNum < 2 ^ 64) :
    decodeInelgMissingDataKey (encodeInelgMissingDataKey key) = .ok key ↔
      0 ∉ key.ns ∧ 0 ∉ key.coll := by
  obtain ⟨ns, coll, bn⟩ := key
  dsimp only at hb ⊢
  rw [decodeInelgMissingDataKey, encodeInelgMissingDataKey, tail_cons]
  constructor
  · intro hd
    split at hd
    case h_1 part other number hsplit =>
      obtain ⟨_, -, hk⟩ := of_bind hd
      cases hk
      exact notMem_of_splitN_append hsplit
    case h_2 => cases hd
  · rintro ⟨hns, hco⟩
    have hrd := decode_reverse hb []
    rw [append_nil] at hrd
    rw [splitN_append hns, splitN_append hco, splitN]
    exact bind_of_ok hrd rfl

theorem append_lt_append_iff {z : Bytes} : x ++ y < x ++ z ↔ y < z := by
  induction x with
  | nil => rfl
  | cons a x ih => simp [ih]

/-- Block numbers in reverse order sort from the latest down and are read back, and so are the keys
of missing data, if the names hold no nil byte. -/
theorem reverseOrder_keys :
    OrderedCode (· > ·) encodeReverseOrderVarUint64 decodeReverseOrderVarUint64 ∧
    (∀ ns coll, ∀ b < 2 ^ 64, ∀ b' < 2 ^ 64,
      ∀ encode ∈ [encodeElgPrioMissingDataKey, encodeElgDeprioMissingDataKey,
        encodeInelgMissingDataKey],
        (encode ⟨ns, coll, b⟩ < encode ⟨ns, coll, b'⟩ ↔ b > b')) ∧
    ∀ key : NsCollBlk, key.blkNum < 2 ^ 64 →
      ∀ codec ∈ [(encodeElgPrioMissingDataKey, decodeElgMissingDataKey),
        (encodeElgDeprioMissingDataKey, decodeElgMissingDataKey),
        (encodeInelgMissingDataKey, decodeInelgMissingDataKey)],
        (codec.2 (codec.1 key) = .ok key ↔ 0 ∉ key.ns ∧ 0 ∉ key.coll) := by
  have hcode : OrderedCode (· > ·) encodeReverseOrderVarUint64 decodeReverseOrderVarUint64 :=
    orderedCode_of_append (fun n hn m hm x y => reverse_append_lt hn hm)
      fun n hn => decode_reverse hn
  refine ⟨hcode, ?_, ?_⟩
  · intro ns coll b hb b' hb'
    simp [encodeElgPrioMissingDataKey, encodeElgDeprioMissingDataKey, encodeElgMissingDataKey,
      encodeInelgMissingDataKey, reverse_append_lt hb hb', append_lt_append_iff,
      hcode.lt_iff b hb b' hb']
  · intro key hblk
    simp only [forall_mem_cons, not_mem_nil]
    exact ⟨decodeElg_iff 4 hblk, decodeElg_iff 8 hblk, decodeInelg_iff hblk, by simp⟩

theorem decodeElg_nilByte :
    (decodeElgMissingDataKey (encodeElgPrioMissingDataKey ⟨[1, 0, 2], [3], 5⟩)).toOption =
      some ⟨[1], [2], 5⟩ := by
  decide

end Pvtdatastorage

end FabricSequencer
