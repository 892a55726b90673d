import FabricSequencer.ProtoWire

/-!
# Messages as sequences of fields

A protobuf message is read field by field.  `Parses` relates an input to its
fields; the reader is deterministic, and what it reads from an input does not
depend on what follows, so the fields of a concatenation are the fields of its
parts.  A field is never shorter than its own shortest encoding.
-/

namespace ProtoWire

open List Prod

/-! ## Readers and what follows their input -/

variable {fuel : ℕ} {v : ℕ} {input : Octets} {rest : Octets}

theorem consumeGroups_append (hrd : consumeGroups fuel input = .ok (v, rest)) (more : Octets) :
    consumeGroups fuel (input ++ more) = .ok (v, rest ++ more) := by
  induction fuel, input using consumeGroups.induct generalizing v with
  | case1 | case2 => simp [consumeGroups] at hrd
  | case3 _ _ hsm =>
    rw [consumeGroups, if_pos hsm] at hrd
    cases hrd
    rw [cons_append, consumeGroups, if_pos hsm]
  | case4 _ _ hlr =>
    rw [consumeGroups, if_neg hlr] at hrd
    cases hrd
  | case5 _ _ _ hsm =>
    rw [consumeGroups, if_pos hsm] at hrd
    cases hrd
    rw [cons_append, consumeGroups, if_pos hsm]
  | case6 _ _ _ hlr _ hr =>
    rw [consumeGroups, if_neg hlr, hr] at hrd
    cases hrd
  | case7 _ _ _ hlr _ _ hhg ih =>
    rw [consumeGroups, if_neg hlr, hhg] at hrd
    cases hrd
    rw [cons_append, consumeGroups, if_neg hlr, ih hhg]

theorem consumeGroups_length (hrd : consumeGroups fuel input = .ok (v, rest)) :
    (encodeGroups fuel v).length + rest.length ≤ input.length ∧
      rest.length < input.length ∧ v < groupBound fuel := by
  induction fuel, input using consumeGroups.induct generalizing v with
  | case1 | case2 => simp [consumeGroups] at hrd
  | case3 _ _ hsm =>
    rw [consumeGroups, if_pos hsm] at hrd
    cases hrd
    rw [encodeGroups, if_pos (by omega)]
    refine ⟨by simp; omega, by simp, ?_⟩
    simpa [groupBound] using hsm
  | case4 _ _ hlr =>
    rw [consumeGroups, if_neg hlr] at hrd
    cases hrd
  | case5 fuel byte _ hsm =>
    rw [consumeGroups, if_pos hsm] at hrd
    cases hrd
    rw [encodeGroups, if_pos hsm]
    refine ⟨by simp; omega, by simp, ?_⟩
    have hp : 1 ≤ 128 ^ fuel := Nat.one_le_pow _ _ (by norm_num)
    have hbn : groupBound (fuel + 2) = 2 * (128 ^ fuel * 128) := by
      simp [groupBound, pow_succ]
    change byte.val < groupBound (fuel + 2)
    omega
  | case6 _ _ _ hlr _ hr =>
    rw [consumeGroups, if_neg hlr, hr] at hrd
    cases hrd
  | case7 fuel byte _ hlr high _ hhg ih =>
    rw [consumeGroups, if_neg hlr, hhg] at hrd
    cases hrd
    obtain ⟨_, _, _⟩ := ih hhg
    have hby := byte.isLt
    have hd : (byte.val - 128 + 128 * high) / 128 = high := by omega
    refine ⟨?_, by simp; omega, ?_⟩
    · rw [encodeGroups]
      split
      · simp
        omega
      · rw [hd]
        simp
        omega
    · have hnx : groupBound (fuel + 2) = groupBound (fuel + 1) * 128 := by
        simp [groupBound, pow_succ, mul_assoc]
      change byte.val - 128 + 128 * high < groupBound (fuel + 2)
      omega

theorem consumeVarint_append (hrd : consumeVarint input = .ok (v, rest)) (more : Octets) :
    consumeVarint (input ++ more) = .ok (v, rest ++ more) :=
  consumeGroups_append hrd more

theorem consumeVarint_length (hrd : consumeVarint input = .ok (v, rest)) :
    (appendVarint v).length + rest.length ≤ input.length ∧
      rest.length < input.length ∧ v < 2 ^ 64 := by
  obtain ⟨hsh, hle, _⟩ := consumeGroups_length hrd
  have hval : v < 2 ^ 64 := by
    have hlm : groupBound 10 = 2 ^ 64 := by norm_num [groupBound]
    omega
  rw [appendVarint, Nat.mod_eq_of_lt hval]
  exact ⟨hsh, hle, hval⟩

section

variable {input v rest : Octets} (hrd : consumeBytes input = .ok (v, rest))

include hrd

theorem consumeBytes_append (more : Octets) :
    consumeBytes (input ++ more) = .ok (v, rest ++ more) := by
  unfold consumeBytes at hrd ⊢
  split at hrd
  · cases hrd
  rename_i length post hl
  split at hrd
  · cases hrd
  rename_i hft
  cases hrd
  rw [consumeVarint_append hl]
  dsimp only
  rw [if_neg (by simp; omega), take_append_of_le_length (by omega),
    drop_append_of_le_length (by omega)]

theorem consumeBytes_length : (appendBytes v).length + rest.length ≤ input.length := by
  unfold consumeBytes at hrd
  split at hrd
  · cases hrd
  rename_i length post hl
  split at hrd
  · cases hrd
  rename_i hft
  cases hrd
  obtain ⟨_, -, -⟩ := consumeVarint_length hl
  have htk : (post.take length).length = length := by
    rw [length_take]
    omega
  rw [appendBytes, length_append, htk, length_drop]
  omega

end

variable {input rest : Octets}

theorem consumeFixed_append {width : ℕ} (hrd : consumeFixed width input = .ok rest)
    (more : Octets) : consumeFixed width (input ++ more) = .ok (rest ++ more) := by
  unfold consumeFixed at hrd ⊢
  split at hrd
  · cases hrd
  next =>
    cases hrd
    rw [if_neg (by simp; omega), drop_append_of_le_length (by omega)]

variable {number : ℕ} {wireType : WireType}

theorem consumeTag_append (hrd : consumeTag input = .ok (number, wireType, rest)) (more : Octets) :
    consumeTag (input ++ more) = .ok (number, wireType, rest ++ more) := by
  unfold consumeTag at hrd ⊢
  split at hrd
  · cases hrd
  rename_i tag post ht
  rw [consumeVarint_append ht]
  dsimp only
  split at hrd
  · cases hrd
  next hok =>
    cases hrd
    rw [if_neg hok]

def Local (read : Octets → Except WireError Octets) (input rest : Octets) (more : Octets) : Prop :=
  rest.length ≤ input.length ∧ read (input ++ more) = .ok (rest ++ more)

theorem local_varint (hrd : (consumeVarint input).map snd = .ok rest) (more : Octets) :
    Local (fun input => (consumeVarint input).map snd) input rest more := by
  cases hin : consumeVarint input with
  | error =>
    rw [hin] at hrd
    cases hrd
  | ok =>
    rw [hin] at hrd
    cases hrd
    obtain ⟨-, hle, -⟩ := consumeVarint_length hin
    refine ⟨hle.le, ?_⟩
    dsimp only
    rw [consumeVarint_append hin more]
    rfl

theorem local_bytes (hrd : (consumeBytes input).map snd = .ok rest) (more : Octets) :
    Local (fun input => (consumeBytes input).map snd) input rest more := by
  cases hin : consumeBytes input with
  | error =>
    rw [hin] at hrd
    cases hrd
  | ok =>
    rw [hin] at hrd
    cases hrd
    have hl := consumeBytes_length hin
    refine ⟨by omega, ?_⟩
    dsimp only
    rw [consumeBytes_append hin more]
    rfl

theorem local_fixed {width : ℕ} (hrd : consumeFixed width input = .ok rest) (more : Octets) :
    Local (consumeFixed width) input rest more := by
  refine ⟨?_, consumeFixed_append hrd more⟩
  unfold consumeFixed at hrd
  split at hrd
  · cases hrd
  · cases hrd
    simp

theorem consumeTag_length (hrd : consumeTag input = .ok (number, wireType, rest)) :
    rest.length < input.length := by
  unfold consumeTag at hrd
  split at hrd
  · cases hrd
  rename_i tag post ht
  obtain ⟨-, hle, -⟩ := consumeVarint_length ht
  split at hrd
  · cases hrd
  · cases hrd
    exact hle

theorem local_scalar {fuel other number : ℕ} (hwr : wireType ≠ .startGroup) {depth : ℤ}
    (hrd : consumeFieldValueD fuel number wireType input depth = .ok rest) (more : Octets) :
    Local (fun input => consumeFieldValueD other number wireType input depth) input rest more := by
  cases wireType with
  | startGroup => exact absurd rfl hwr
  | endGroup | reserved => simp [consumeFieldValueD] at hrd
  | varint =>
    simp only [consumeFieldValueD] at hrd ⊢
    exact local_varint hrd more
  | bytes =>
    simp only [consumeFieldValueD] at hrd ⊢
    exact local_bytes hrd more
  | fixed64 | fixed32 =>
    simp only [consumeFieldValueD] at hrd ⊢
    exact local_fixed hrd more

/-- Reading a value or a group again with more fuel and more input.  The
induction is on the fuel, which every nested call takes one unit of. -/
theorem local_fieldValueD (more : Octets) (fuel : ℕ) :
    (∀ (number : ℕ) (wireType : WireType) (input : Octets) (depth : ℤ)
        (rest : Octets) (other : ℕ), fuel ≤ other →
      consumeFieldValueD fuel number wireType input depth = .ok rest →
      Local (fun input => consumeFieldValueD other number wireType input depth) input rest more) ∧
    ∀ (number : ℕ) (input : Octets) (depth : ℤ) (rest : Octets) (other : ℕ),
      fuel ≤ other → consumeGroup fuel number input depth = .ok rest →
      Local (fun input => consumeGroup other number input depth) input rest
        more := by
  induction fuel with
  | zero =>
    constructor
    · intro _ wireType _ _ _ _ _ hrd
      by_cases hwr : wireType = .startGroup
      · subst hwr
        cases hrd
      · exact local_scalar hwr hrd more
    · intro _ _ _ _ _ _ hrd
      cases hrd
  | succ _ ih =>
    obtain ⟨ihValue, ihGroup⟩ := ih
    constructor
    · intro number wireType input depth rest other _ hrd
      by_cases hwr : wireType = .startGroup
      · subst hwr
        obtain ⟨less, rfl⟩ : ∃ less, other = less + 1 := ⟨other - 1, by omega⟩
        simp only [consumeFieldValueD] at hrd ⊢
        split at hrd
        · cases hrd
        next hdp =>
          simp only [if_neg hdp]
          exact ihGroup number input depth rest less (by omega) hrd
      · exact local_scalar hwr hrd more
    · intro number _ depth rest other _ hrd
      obtain ⟨less, rfl⟩ : ∃ less, other = less + 1 := ⟨other - 1, by omega⟩
      unfold Local
      simp only [consumeGroup] at hrd ⊢
      split at hrd
      · cases hrd
      next ht =>
        rw [consumeTag_append ht more]
        dsimp only
        split at hrd
        · cases hrd
        next heq =>
          cases hrd
          rw [if_neg heq]
          exact ⟨(consumeTag_length ht).le, rfl⟩
      next inn wireType post hc ht =>
        rw [consumeTag_append ht more]
        have hle := consumeTag_length ht
        split at hrd
        · cases hrd
        rename_i next hval
        obtain ⟨_, hag⟩ := ihValue inn wireType post (depth - 1)
          next less (by omega) hval
        obtain ⟨_, hg⟩ := ihGroup number next depth rest less (by omega) hrd
        refine ⟨by omega, ?_⟩
        cases wireType with
        | endGroup => exact absurd rfl hc
        | _ =>
          simp only [hag]
          exact hg

theorem local_fieldValue (hrd : consumeFieldValue number wireType input = .ok rest)
    (more : Octets) : Local (consumeFieldValue number wireType) input rest more := by
  have hlc := (local_fieldValueD more (2 * input.length + 2)).1 number wireType input 10000 rest
    (2 * (input ++ more).length + 2) (by simp) hrd
  exact hlc

/-! ## Fields -/

/-- A field of a message.  `raw` is its value as it stands in the input;
`content` and `scalar` are that value where its wire type has one. -/
structure Field where
  tag : ℕ
  raw : Octets
  content : Octets := []
  scalar : ℕ := 0
deriving DecidableEq

def Field.encode (field : Field) : Octets := appendVarint field.tag ++ field.raw

def consumeField (tag : ℕ) (input : Octets) : Except WireError (Field × Octets) :=
  match wireTypeOf tag with
  | .bytes =>
    match consumeBytes input with
    | .error error => .error error
    | .ok (content, rest) =>
      .ok ({ tag, raw := input.take (input.length - rest.length), content }, rest)
  | .varint =>
    match consumeVarint input with
    | .error error => .error error
    | .ok (scalar, rest) =>
      .ok ({ tag, raw := input.take (input.length - rest.length), scalar }, rest)
  | wireType =>
    match consumeFieldValue (tag / 8) wireType input with
    | .error error => .error error
    | .ok rest => .ok ({ tag, raw := input.take (input.length - rest.length) }, rest)

def validTag (tag : ℕ) : Bool := 1 ≤ tag / 8 && tag / 8 ≤ 2 ^ 29 - 1 && wireTypeOf tag ≠ .endGroup

def parseFields : ℕ → Octets → Except WireError (List Field)
  | _, [] => .ok []
  | 0, _ :: _ => .error .truncated
  | fuel + 1, byte :: input =>
    match consumeVarint (byte :: input) with
    | .error error => .error error
    | .ok (tag, rest) =>
      if validTag tag then
        match consumeField tag rest with
        | .error error => .error error
        | .ok (field, after) =>
          match parseFields fuel after with
          | .error error => .error error
          | .ok fields => .ok (field :: fields)
      else .error .fieldNumber

def fieldsOf (input : Octets) : Except WireError (List Field) := parseFields input.length input

inductive Parses : Octets → List Field → Prop
  | nil : Parses [] []
  | cons {input rest after : Octets} {tag : ℕ} {field : Field} {fields : List Field}
      (htag : consumeVarint input = .ok (tag, rest))
      (hvalid : validTag tag = true)
      (hfield : consumeField tag rest = .ok (field, after))
      (hrest : Parses after fields) : Parses input (field :: fields)

theorem take_append_sub (hl : rest.length ≤ input.length) (more : Octets) :
    (input ++ more).take ((input ++ more).length - (rest ++ more).length) =
      input.take (input.length - rest.length) := by
  rw [length_append, length_append, take_append_of_le_length (by omega)]
  congr 1
  omega

variable {tag : ℕ} {field : Field}

theorem consumeField_append (hrd : consumeField tag input = .ok (field, rest)) (more : Octets) :
    consumeField tag (input ++ more) = .ok (field, rest ++ more) := by
  unfold consumeField at hrd ⊢
  split at hrd
  · split at hrd
    · cases hrd
    rename_i content post hcn
    cases hrd
    have hl := consumeBytes_length hcn
    simp only [consumeBytes_append hcn more,
      take_append_sub (show rest.length ≤ input.length by omega)]
  · split at hrd
    · cases hrd
    next hs =>
      cases hrd
      obtain ⟨-, hl, -⟩ := consumeVarint_length hs
      simp only [consumeVarint_append hs more, take_append_sub hl.le]
  next =>
    split at hrd
    · cases hrd
    next hval =>
      cases hrd
      obtain ⟨hl, hag⟩ := local_fieldValue hval more
      simp only [hag, take_append_sub hl]

theorem consumeFieldValue_bytes (number : ℕ) (input : Octets) :
    consumeFieldValue number .bytes input = (consumeBytes input).map snd := by
  simp only [consumeFieldValue, consumeFieldValueD]

theorem consumeFieldValue_varint (number : ℕ) (input : Octets) :
    consumeFieldValue number .varint input = (consumeVarint input).map snd := by
  simp only [consumeFieldValue, consumeFieldValueD]

theorem consumeField_map_snd (tag : ℕ) (input : Octets) :
    (consumeField tag input).map snd = consumeFieldValue (tag / 8) (wireTypeOf tag) input := by
  unfold consumeField
  split
  next hwr =>
    rw [hwr, consumeFieldValue_bytes]
    cases consumeBytes input <;> rfl
  next hwr =>
    rw [hwr, consumeFieldValue_varint]
    cases consumeVarint input <;> rfl
  · cases consumeFieldValue (tag / 8) (wireTypeOf tag) input <;> rfl

theorem consumeField_map_content (hwr : wireTypeOf tag = .bytes) (input : Octets) :
    (consumeField tag input).map (fun read => (read.1.content, read.2)) = consumeBytes input := by
  simp only [consumeField, hwr]
  cases consumeBytes input <;> rfl

theorem consumeField_raw (hrd : consumeField tag input = .ok (field, rest)) :
    field.raw = input.take (input.length - rest.length) := by
  unfold consumeField at hrd
  split at hrd <;> split at hrd
  · cases hrd
  · cases hrd; rfl
  · cases hrd
  · cases hrd; rfl
  · cases hrd
  · cases hrd; rfl

theorem consumeField_spec (hrd : consumeField tag input = .ok (field, rest)) :
    field.tag = tag ∧ field.raw.length + rest.length = input.length ∧
      (wireTypeOf tag = .bytes → (appendBytes field.content).length ≤ field.raw.length) := by
  unfold consumeField at hrd
  split at hrd
  · split at hrd
    · cases hrd
    rename_i content post hcn
    cases hrd
    have hl := consumeBytes_length hcn
    refine ⟨rfl, ?_, ?_⟩
    · simp
      omega
    · intro _
      simp
      omega
  next hwr =>
    split at hrd
    · cases hrd
    rename_i scalar post hs
    cases hrd
    obtain ⟨-, _, -⟩ := consumeVarint_length hs
    refine ⟨rfl, ?_, ?_⟩
    · simp
      omega
    · intro hby
      rw [hby] at hwr
      cases hwr
  next hby _ =>
    split at hrd
    · cases hrd
    rename_i post hval
    cases hrd
    obtain ⟨_, -⟩ := local_fieldValue hval []
    refine ⟨rfl, ?_, ?_⟩
    · simp
      omega
    · intro hwr
      exact absurd hwr hby

/-! ## Parsing with and without fuel -/

variable {fields : List Field}

theorem Parses.of_parseFields (hpa : parseFields fuel input = .ok fields) :
    Parses input fields := by
  induction fuel generalizing input fields with
  | zero =>
    cases input with
    | nil =>
      cases hpa
      exact .nil
    | cons => cases hpa
  | succ _ ih =>
    cases input with
    | nil =>
      cases hpa
      exact .nil
    | cons =>
      rw [parseFields] at hpa
      split at hpa
      · cases hpa
      rename_i tag rest ht
      split at hpa
      next hok =>
        split at hpa
        · cases hpa
        rename_i field post hfl
        split at hpa
        · cases hpa
        next hl =>
          cases hpa
          exact .cons ht hok hfl (ih hl)
      · cases hpa

theorem Parses.parseFields_eq (hpa : Parses input fields) (hfu : input.length ≤ fuel) :
    parseFields fuel input = .ok fields := by
  induction hpa generalizing fuel with
  | nil => cases fuel <;> rfl
  | @cons input _ post _ _ _ ht hok hfl _ ih =>
    obtain ⟨-, hle, -⟩ := consumeVarint_length ht
    obtain ⟨-, _, -⟩ := consumeField_spec hfl
    obtain ⟨less, rfl⟩ : ∃ less, fuel = less + 1 := ⟨fuel - 1, by omega⟩
    cases input with
    | nil => simp at hle
    | cons =>
      rw [length_cons] at hle hfu
      simp only [parseFields, ht, hok, hfl, if_true, ih (by omega : post.length ≤ less)]

theorem fieldsOf_eq_ok_iff : fieldsOf input = .ok fields ↔ Parses input fields :=
  ⟨Parses.of_parseFields, fun hpa => hpa.parseFields_eq le_rfl⟩

theorem Parses.unique {first second : List Field}
    (hf : Parses input first) (hs : Parses input second) : first = second := by
  have h := hf.parseFields_eq (le_refl input.length)
  rw [hs.parseFields_eq (le_refl input.length)] at h
  cases h
  rfl

theorem Parses.append {first b : Octets} {fields more : List Field}
    (hf : Parses first fields) (hs : Parses b more) : Parses (first ++ b) (fields ++ more) := by
  induction hf with
  | nil => exact hs
  | cons ht hok hfl _ ih =>
    exact .cons (consumeVarint_append ht b) hok (consumeField_append hfl b) ih

theorem encodeGroups_length_le (fuel v : ℕ) : (encodeGroups fuel v).length ≤ fuel := by
  induction fuel generalizing v with
  | zero => exact le_rfl
  | succ _ ih =>
    unfold encodeGroups
    split_ifs
    · simp
    · simpa using ih (v / 128)

theorem appendVarint_length_le (v : ℕ) : (appendVarint v).length ≤ 10 :=
  encodeGroups_length_le 10 _

theorem appendBytesField_length_le (number : ℕ) (v : Octets) :
    (appendBytesField number v).length ≤ v.length + 20 := by
  have ht := appendVarint_length_le (number * 8 + 2)
  have hc := appendVarint_length_le v.length
  unfold appendBytesField appendBytes
  split_ifs
  · simp
  · simp only [length_append]
    omega

theorem Parses.bytesField (tag : ℕ) (ht : tag < 2 ^ 64) (hok : validTag tag = true)
    (hwr : wireTypeOf tag = .bytes) {v : Octets} (hval : v.length < 2 ^ 64) :
    ∃ field : Field, field.tag = tag ∧ field.content = v ∧
      Parses (appendVarint tag ++ appendBytes v) [field] := by
  have hrd := consumeBytes_appendBytes hval []
  rw [append_nil] at hrd
  refine
    ⟨{ tag := tag
       raw := (appendBytes v).take ((appendBytes v).length - 0)
       content := v }, rfl, rfl,
      .cons (consumeVarint_appendVarint ht _) hok ?_ .nil⟩
  unfold consumeField
  rw [hwr, hrd]
  rfl

theorem Parses.varintField (tag : ℕ) (ht : tag < 2 ^ 64)
    (hok : validTag tag = true) (hwr : wireTypeOf tag = .varint) (hval : v < 2 ^ 64) :
    ∃ field : Field, field.tag = tag ∧ field.scalar = v ∧
      Parses (appendVarint tag ++ appendVarint v) [field] := by
  have hrd := consumeVarint_appendVarint hval []
  rw [append_nil] at hrd
  refine
    ⟨{ tag := tag
       raw := (appendVarint v).take ((appendVarint v).length - 0)
       scalar := v }, rfl, rfl,
      .cons (consumeVarint_appendVarint ht _) hok ?_ .nil⟩
  unfold consumeField
  rw [hwr, hrd]
  rfl

theorem Parses.length_le (hpa : Parses input fields) :
    (fields.map fun field => field.encode.length).sum ≤ input.length := by
  induction hpa with
  | nil => simp
  | cons ht _ hfl =>
    obtain ⟨_, -, -⟩ := consumeVarint_length ht
    obtain ⟨heq, _, -⟩ := consumeField_spec hfl
    rw [map_cons, sum_cons, Field.encode, length_append, heq]
    omega

theorem Parses.bytes_le (hpa : Parses input fields) (hm : field ∈ fields)
    (hwr : wireTypeOf field.tag = .bytes) :
    (appendBytes field.content).length ≤ field.raw.length := by
  induction hpa with
  | nil => cases hm
  | cons _ _ hfl _ ih =>
    obtain ⟨heq, -, hby⟩ := consumeField_spec hfl
    rcases mem_cons.mp hm with rfl | hlat
    · exact hby (heq ▸ hwr)
    · exact ih hlat

end ProtoWire
