import FabricSequencer.GoTypes

/-!
# Order-preserving numbers

The databases of the ledger compare keys byte by byte.  `ledger/util` encodes a
number by its length and its bytes, so that the order of the encodings is the
order of the numbers, whatever follows them in the key.
-/

namespace FabricSequencer.LedgerUtil

open List ProtoWire

/-- The last `count` bytes of `binary.BigEndian.PutUint64`. -/
def bigEndian (number : ℕ) : ℕ → Bytes
  | 0 => []
  | count + 1 => octet (number / 256 ^ count) :: bigEndian number count

def encodeOrderPreservingVarUint64 (number : ℕ) : Bytes :=
  let bytes := (bigEndian number 8).dropWhile (· = 0)
  appendVarint bytes.length ++ bytes

def decodeOrderPreservingVarUint64 (bytes : Bytes) : Except String (ℕ × ℕ) :=
  let (s, numBytes) := match consumeVarint bytes with
    | .error _ => (0, 0)
    | .ok (s, rest) => (s, bytes.length - rest.length)
  if numBytes ≠ 1 then
    .error ("number of consumed bytes from DecodeVarint is invalid, expected 1, but got " ++
      toString numBytes)
  else if s > 8 then
    .error ("decoded size from DecodeVarint is invalid, expected <=8, but got " ++ toString s)
  else if s > bytes.length - 1 then
    .error ("decoded size (" ++ toString s ++
      ") from DecodeVarint is more than available bytes (" ++ toString (bytes.length - 1) ++ ")")
  else .ok ((bytes.tail.take s).foldl (fun number byte => number * 256 + byte.val) 0, s + 1)

variable {n m : ℕ} {x y : Bytes}

theorem length_bigEndian (n k : ℕ) : (bigEndian n k).length = k := by
  induction k with
  | zero => rfl
  | succ k ih => rw [bigEndian, length_cons, ih]

theorem mod_pow_succ (n k : ℕ) :
    n % 256 ^ (k + 1) = n % 256 ^ k + 256 ^ k * (octet (n / 256 ^ k)).val := by
  rw [pow_succ, Nat.mod_mul, octet_val]

theorem bigEndian_append_lt (n m k : ℕ) :
    bigEndian n k ++ x < bigEndian m k ++ y ↔
      n % 256 ^ k < m % 256 ^ k ∨ n % 256 ^ k = m % 256 ^ k ∧ x < y := by
  induction k with
  | zero => simp [bigEndian, Nat.mod_one]
  | succ k ih =>
    have hn := Nat.mod_lt n (show 0 < 256 ^ k by positivity)
    have hm := Nat.mod_lt m (show 0 < 256 ^ k by positivity)
    rw [bigEndian, bigEndian, cons_append, cons_append, cons_lt_cons_iff, ih, mod_pow_succ,
      mod_pow_succ, Fin.lt_def, Fin.ext_iff]
    generalize (octet (n / 256 ^ k)).val = p
    generalize (octet (m / 256 ^ k)).val = q
    rcases lt_trichotomy p q with hlt | rfl | hgt
    · have := Nat.mul_le_mul_left (256 ^ k) hlt
      grind
    · simp
    · have := Nat.mul_le_mul_left (256 ^ k) hgt
      grind

theorem exists_dropWhile_bigEndian (n k : ℕ) :
    ∃ c ≤ k, (bigEndian n k).dropWhile (· = 0) = bigEndian n c ∧ n % 256 ^ k < 256 ^ c ∧
      (c = 0 ∨ 256 ^ (c - 1) ≤ n % 256 ^ k) := by
  induction k with
  | zero => exact ⟨0, le_rfl, rfl, by simp [Nat.mod_one], .inl rfl⟩
  | succ k ih =>
    rw [mod_pow_succ]
    by_cases hzr : octet (n / 256 ^ k) = 0
    · obtain ⟨c, hc, hdr, hlt, hle⟩ := ih
      refine ⟨c, by omega, ?_, ?_⟩
      · rw [bigEndian, dropWhile_cons_of_pos (by simpa using hzr), hdr]
      · rw [hzr]
        simpa using ⟨hlt, hle⟩
    · refine ⟨k + 1, le_rfl, ?_, ?_, .inr ?_⟩
      · rw [bigEndian, dropWhile_cons_of_neg (by simpa using hzr)]
      · rw [← mod_pow_succ]
        exact Nat.mod_lt n (by positivity)
      · have hp : 1 ≤ (octet (n / 256 ^ k)).val := by
          rw [Nat.one_le_iff_ne_zero]
          exact fun h => hzr (Fin.ext h)
        have := Nat.mul_le_mul_left (256 ^ k) hp
        simp only [Nat.add_sub_cancel]
        omega

theorem exists_encode (hn : n < 2 ^ 64) :
    ∃ c ≤ 8, encodeOrderPreservingVarUint64 n = octet c :: bigEndian n c ∧ n < 256 ^ c ∧
      (c = 0 ∨ 256 ^ (c - 1) ≤ n) := by
  obtain ⟨c, hc, hdr, hb⟩ := exists_dropWhile_bigEndian n 8
  rw [Nat.mod_eq_of_lt (by simpa using hn)] at hb
  refine ⟨c, hc, ?_, hb⟩
  rw [encodeOrderPreservingVarUint64, hdr, length_bigEndian, appendVarint_of_lt (by omega)]
  rfl

theorem encode_append_lt (hn : n < 2 ^ 64) (hm : m < 2 ^ 64) :
    encodeOrderPreservingVarUint64 n ++ x < encodeOrderPreservingVarUint64 m ++ y ↔
      n < m ∨ n = m ∧ x < y := by
  obtain ⟨c, hc, henc, hlt, hle⟩ := exists_encode hn
  obtain ⟨d, hd, hend, hl, hlem⟩ := exists_encode hm
  rw [henc, hend, cons_append, cons_append, cons_lt_cons_iff, Fin.lt_def, Fin.ext_iff, octet_val,
    octet_val, Nat.mod_eq_of_lt (by omega), Nat.mod_eq_of_lt (by omega)]
  rcases lt_trichotomy c d with hcd | rfl | hcd
  · have hp := Nat.pow_le_pow_right (show 0 < 256 by decide) (show c ≤ d - 1 by omega)
    omega
  · rw [bigEndian_append_lt, Nat.mod_eq_of_lt hlt, Nat.mod_eq_of_lt hl]
    simp
  · have hp := Nat.pow_le_pow_right (show 0 < 256 by decide) (show d ≤ c - 1 by omega)
    omega

theorem foldl_bigEndian (n k a : ℕ) :
    (bigEndian n k).foldl (fun num byte => num * 256 + byte.val) a = a * 256 ^ k + n % 256 ^ k := by
  induction k generalizing a with
  | zero => simp [bigEndian, Nat.mod_one]
  | succ k ih =>
    rw [bigEndian, foldl_cons, ih, mod_pow_succ]
    ring

theorem decode_encode (hn : n < 2 ^ 64) (tl : Bytes) :
    decodeOrderPreservingVarUint64 (encodeOrderPreservingVarUint64 n ++ tl) =
      .ok (n, (encodeOrderPreservingVarUint64 n).length) := by
  obtain ⟨c, hc, henc, hlt, -⟩ := exists_encode hn
  have hrd : consumeVarint (octet c :: (bigEndian n c ++ tl)) = .ok (c, bigEndian n c ++ tl) := by
    have hrd := @consumeVarint_appendVarint c (by omega) (bigEndian n c ++ tl)
    rwa [appendVarint_of_lt (by omega)] at hrd
  have hl := length_bigEndian n c
  rw [henc, cons_append, decodeOrderPreservingVarUint64, hrd]
  simp [hl, hc, foldl_bigEndian, Nat.mod_eq_of_lt hlt]

/-- The keys from `start` up to an extension of it are the smaller extensions. -/
theorem mem_range_iff {α : Type} [LinearOrder α] {start stop s : List α} :
    ¬ s < start ∧ s < start ++ stop ↔ ∃ t, s = start ++ t ∧ t < stop := by
  induction start generalizing s with
  | nil => simp
  | cons a start ih =>
    cases s with
    | nil => simp
    | cons b s =>
      rw [cons_append, cons_lt_cons_iff, cons_lt_cons_iff]
      simp only [cons_append, cons.injEq, and_assoc, exists_and_left, ← ih]
      grind

end FabricSequencer.LedgerUtil
