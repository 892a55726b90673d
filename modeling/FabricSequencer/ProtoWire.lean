import Mathlib.Data.Fin.Basic
import Mathlib.Tactic

/-!
# The protobuf wire format

Varints, tags and length-prefixed values as `protowire` reads and writes them.
A reader returns the value together with the bytes after it.  Besides the
round trip, the library says what a reader does on input that was cut short:
a strict prefix of a length-prefixed value is refused, never misread.
-/

namespace ProtoWire

open List

abbrev Octets := List (Fin 256)

inductive WireError where
  | truncated
  | fieldNumber
  | overflow
  | reserved
  | endGroup
  | recursionDepth

-- the literals of `Fin 256` share this proof
instance neZero_octets : NeZero 256 := ⟨by decide⟩

def octet (n : ℕ) : Fin 256 := Fin.ofNat 256 n

@[simp] theorem octet_val (n : ℕ) : (octet n).val = n % 256 := rfl

/-- At most `fuel` groups of seven bits, lowest first. -/
def encodeGroups : ℕ → ℕ → Octets
  | 0, _ => []
  | fuel + 1, value =>
    if value < 128 then [octet value]
    else octet (value % 128 + 128) :: encodeGroups fuel (value / 128)

/-- `AppendVarint`: a 64-bit value takes one to ten bytes. -/
def appendVarint (value : ℕ) : Octets := encodeGroups 10 (value % 2 ^ 64)

/-- Reads at most `fuel` bytes.  The last of ten bytes may only hold the top
bit of the 64-bit value. -/
def consumeGroups : ℕ → Octets → Except WireError (ℕ × Octets)
  | _, [] => .error .truncated
  | 0, _ :: _ => .error .overflow
  | 1, byte :: rest =>
    if byte.val < 2 then .ok (byte.val, rest) else .error .overflow
  | fuel + 2, byte :: rest =>
    if byte.val < 128 then .ok (byte.val, rest)
    else
      match consumeGroups (fuel + 1) rest with
      | .error error => .error error
      | .ok (value, after) => .ok (byte.val - 128 + 128 * value, after)

def consumeVarint (input : Octets) : Except WireError (ℕ × Octets) := consumeGroups 10 input

/-- What a value may be when `fuel` bytes are left for it. -/
def groupBound (fuel : ℕ) : ℕ := 2 * 128 ^ (fuel - 1)

theorem groupBound_succ {fuel v : ℕ} (hval : v < groupBound (fuel + 2)) :
    v / 128 < groupBound (fuel + 1) := by
  unfold groupBound at hval ⊢
  rw [Nat.div_lt_iff_lt_mul (by norm_num)]
  simp only [Nat.add_sub_cancel] at hval ⊢
  rw [show fuel + 2 - 1 = fuel + 1 by omega, pow_succ] at hval
  linarith

theorem consumeGroups_encodeGroups {fuel v : ℕ} (hval : v < groupBound (fuel + 1)) (tl : Octets) :
    consumeGroups (fuel + 1) (encodeGroups (fuel + 1) v ++ tl) = .ok (v, tl) := by
  induction fuel generalizing v with
  | zero =>
    have ht : v < 2 := by simpa [groupBound] using hval
    have hsm : v < 128 := by omega
    have hm : v % 256 = v := Nat.mod_eq_of_lt (by omega)
    simp [encodeGroups, consumeGroups, hsm, hm, ht]
  | succ _ ih =>
    by_cases hsm : v < 128
    · have hm : v % 256 = v := Nat.mod_eq_of_lt (by omega)
      simp [encodeGroups, consumeGroups, hsm, hm]
    have hhd : (v % 128 + 128) % 256 = v % 128 + 128 := Nat.mod_eq_of_lt (by omega)
    have hcn : ¬ v % 128 + 128 < 128 := by omega
    have htl := ih (groupBound_succ hval)
    rw [encodeGroups, if_neg hsm, cons_append, consumeGroups]
    rw [octet_val, hhd, if_neg hcn, htl]
    simp only [Except.ok.injEq, Prod.mk.injEq, and_true]
    omega

variable {v : ℕ}

theorem consumeVarint_appendVarint (hval : v < 2 ^ 64) (tl : Octets) :
    consumeVarint (appendVarint v ++ tl) = .ok (v, tl) := by
  unfold consumeVarint appendVarint
  rw [Nat.mod_eq_of_lt hval]
  apply consumeGroups_encodeGroups
  unfold groupBound
  norm_num at hval ⊢
  exact hval

variable {count : ℕ}

theorem consumeGroups_take {fuel v : ℕ} (hval : v < groupBound (fuel + 1))
    (hc : count < (encodeGroups (fuel + 1) v).length) :
    consumeGroups (fuel + 1) ((encodeGroups (fuel + 1) v).take count) = .error .truncated := by
  induction fuel generalizing v count with
  | zero =>
    have ht : v < 2 := by simpa [groupBound] using hval
    have hsm : v < 128 := by omega
    have hzr : count = 0 := by
      simpa [encodeGroups, hsm] using hc
    simp [hzr, consumeGroups]
  | succ fuel ih =>
    cases count with
    | zero => simp [consumeGroups]
    | succ count =>
      by_cases hsm : v < 128
      · simp [encodeGroups, hsm] at hc
      have hhd : (v % 128 + 128) % 256 = v % 128 + 128 := Nat.mod_eq_of_lt (by omega)
      have hcn : ¬ v % 128 + 128 < 128 := by omega
      rw [encodeGroups, if_neg hsm] at hc ⊢
      have hrs : count < (encodeGroups (fuel + 1) (v / 128)).length := by
        simpa using hc
      have htl := ih (groupBound_succ hval) hrs
      rw [take_succ_cons, consumeGroups]
      rw [octet_val, hhd, if_neg hcn, htl]

theorem consumeVarint_take (hval : v < 2 ^ 64) (hc : count < (appendVarint v).length) :
    consumeVarint ((appendVarint v).take count) = .error .truncated := by
  unfold consumeVarint
  unfold appendVarint at hc ⊢
  rw [Nat.mod_eq_of_lt hval] at hc ⊢
  apply consumeGroups_take _ hc
  unfold groupBound
  norm_num at hval ⊢
  exact hval

theorem appendVarint_length_pos (v : ℕ) : 0 < (appendVarint v).length := by
  unfold appendVarint
  rw [encodeGroups]
  split_ifs <;> simp

theorem appendVarint_of_lt (hval : v < 128) : appendVarint v = [octet v] := by
  unfold appendVarint
  rw [Nat.mod_eq_of_lt (by omega), encodeGroups, if_pos hval]

theorem appendVarint_length_of_two_bytes (hl : 128 ≤ v) (hhg : v < 16384) :
    (appendVarint v).length = 2 := by
  have hd : v / 128 < 128 := by omega
  unfold appendVarint
  rw [Nat.mod_eq_of_lt (by omega), encodeGroups, if_neg (by omega), encodeGroups, if_pos hd]
  rfl

def appendBytes (value : Octets) : Octets := appendVarint value.length ++ value

def consumeBytes (input : Octets) : Except WireError (Octets × Octets) :=
  match consumeVarint input with
  | .error error => .error error
  | .ok (length, rest) =>
    if length > rest.length then .error .truncated
    else .ok (rest.take length, rest.drop length)

theorem consumeBytes_appendBytes {v : Octets} (hval : v.length < 2 ^ 64) (tl : Octets) :
    consumeBytes (appendBytes v ++ tl) = .ok (v, tl) := by
  unfold consumeBytes appendBytes
  rw [append_assoc, consumeVarint_appendVarint hval]
  simp

theorem consumeBytes_take {v : Octets} (hval : v.length < 2 ^ 64)
    (hc : count < (appendBytes v).length) :
    consumeBytes ((appendBytes v).take count) = .error .truncated := by
  unfold consumeBytes
  unfold appendBytes at hc ⊢
  by_cases hn : count < (appendVarint v.length).length
  · rw [take_append_of_le_length hn.le, consumeVarint_take hval hn]
  have hsp : (appendVarint v.length ++ v).take count =
      appendVarint v.length ++ v.take (count - (appendVarint v.length).length) := by
    rw [take_append, take_of_length_le (by omega)]
  rw [hsp, consumeVarint_appendVarint hval]
  have hsh : v.length > (v.take (count - (appendVarint v.length).length)).length := by
    rw [length_append] at hc
    rw [length_take]
    omega
  simp only [if_pos hsh]

inductive WireType where
  | varint
  | fixed64
  | bytes
  | startGroup
  | endGroup
  | fixed32
  | reserved
deriving DecidableEq

def wireTypeOf (tag : ℕ) : WireType :=
  match tag % 8 with
  | 0 => .varint
  | 1 => .fixed64
  | 2 => .bytes
  | 3 => .startGroup
  | 4 => .endGroup
  | 5 => .fixed32
  | _ => .reserved

/-- `ConsumeTag`: numbers below one, and those that overflow `int32`, are
refused. -/
def consumeTag (input : Octets) : Except WireError (ℕ × WireType × Octets) :=
  match consumeVarint input with
  | .error error => .error error
  | .ok (tag, rest) =>
    if tag / 8 > 2 ^ 31 - 1 ∨ tag / 8 < 1 then .error .fieldNumber
    else .ok (tag / 8, wireTypeOf tag, rest)

def consumeFixed (width : ℕ) (input : Octets) : Except WireError Octets :=
  if input.length < width then .error .truncated else .ok (input.drop width)

mutual

/-- `consumeFieldValueD`: the bytes after one field value.  Every tag takes at
least one byte and at most two units of `fuel`. -/
def consumeFieldValueD : ℕ → ℕ → WireType → Octets → ℤ → Except WireError Octets
  | _, _, .varint, input, _ => (consumeVarint input).map Prod.snd
  | _, _, .fixed32, input, _ => consumeFixed 4 input
  | _, _, .fixed64, input, _ => consumeFixed 8 input
  | _, _, .bytes, input, _ => (consumeBytes input).map Prod.snd
  | 0, _, .startGroup, _, _ => .error .truncated
  | fuel + 1, number, .startGroup, input, depth =>
    if depth < 0 then .error .recursionDepth
    else consumeGroup fuel number input depth
  | _, _, .endGroup, _, _ => .error .endGroup
  | _, _, .reserved, _, _ => .error .reserved

def consumeGroup : ℕ → ℕ → Octets → ℤ → Except WireError Octets
  | 0, _, _, _ => .error .truncated
  | fuel + 1, number, input, depth =>
    match consumeTag input with
    | .error error => .error error
    | .ok (closing, .endGroup, rest) =>
      if closing ≠ number then .error .endGroup else .ok rest
    | .ok (inner, wireType, rest) =>
      match consumeFieldValueD fuel inner wireType rest (depth - 1) with
      | .error error => .error error
      | .ok after => consumeGroup fuel number after depth

end

/-- `ConsumeFieldValue` with the default recursion limit. -/
def consumeFieldValue (number : ℕ) (wireType : WireType) (input : Octets) :
    Except WireError Octets :=
  consumeFieldValueD (2 * input.length + 2) number wireType input 10000

/-- `appendBytesNoZero`: a tag and a length-prefixed value, nothing for an
empty value. -/
def appendBytesField (number : ℕ) (value : Octets) : Octets :=
  if value.length = 0 then []
  else appendVarint (number * 8 + 2) ++ appendBytes value

theorem appendBytesField_nil (num : ℕ) : appendBytesField num [] = [] := rfl

theorem appendBytesField_of_ne_nil {num : ℕ} {v : Octets} (hval : v ≠ []) :
    appendBytesField num v = appendVarint (num * 8 + 2) ++ appendBytes v := by
  unfold appendBytesField
  rw [if_neg]
  simpa using hval

end ProtoWire
