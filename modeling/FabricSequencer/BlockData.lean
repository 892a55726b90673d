import FabricSequencer.ProtoFields
import FabricSequencer.SequencerFraming

/-!
# The data of a block and its hash

The data hash of a block covers the concatenation of its transactions, without
their lengths.  `VerifyTransactionsAreWellFormed` is what makes the hash
determine the transactions: every transaction has to be the shortest encoding
of an envelope with a payload and a signature.  A block that holds a single
configuration transaction is exempt.
-/

namespace FabricSequencer.Protoutil

open ProtoWire Framing List

/-! ## Payloads and channel headers -/

def int32 (n : ℕ) : ℤ :=
  if n % 2 ^ 32 < 2 ^ 31 then (n % 2 ^ 32 : ℕ) else (n % 2 ^ 32 : ℕ) - 2 ^ 32

def continuation (low high : ℕ) (byte : Byte) : Bool := low ≤ byte.val && byte.val ≤ high

def utf8Valid : Bytes → Bool
  | [] => true
  | [first] => first.val < 0x80
  | first :: second :: rest =>
    if first.val < 0x80 then utf8Valid (second :: rest)
    else if 0xC2 ≤ first.val ∧ first.val ≤ 0xDF then
      continuation 0x80 0xBF second && utf8Valid rest
    else
      match rest with
      | [] => false
      | third :: rest =>
        if 0xE0 ≤ first.val ∧ first.val ≤ 0xEF then
          continuation (if first.val = 0xE0 then 0xA0 else 0x80)
            (if first.val = 0xED then 0x9F else 0xBF) second &&
          continuation 0x80 0xBF third && utf8Valid rest
        else
          match rest with
          | [] => false
          | fourth :: rest =>
            (0xF0 ≤ first.val && first.val ≤ 0xF4) &&
            continuation (if first.val = 0xF0 then 0x90 else 0x80)
              (if first.val = 0xF4 then 0x8F else 0xBF) second &&
            continuation 0x80 0xBF third &&
            continuation 0x80 0xBF fourth && utf8Valid rest

structure ChannelHeader where
  type : ℤ := 0
  channelId : GoString := []
  txId : GoString := []

/-- One field of a channel header.  The timestamp is a message of its own and
the two strings have to be UTF-8. -/
def ChannelHeader.set (header : ChannelHeader) (field : Field) : Except WireError ChannelHeader :=
  if field.tag = 8 then .ok { header with type := int32 field.scalar }
  else if field.tag = 26 then (fieldsOf field.content).map fun _ => header
  else if field.tag = 34 then
    if utf8Valid field.content then
      .ok { header with channelId := field.content }
    else .error .reserved
  else if field.tag = 42 then
    if utf8Valid field.content then .ok { header with txId := field.content }
    else .error .reserved
  else .ok header

def unmarshalChannelHeader (input : Bytes) : Except WireError ChannelHeader := do
  let fields ← fieldsOf input
  fields.foldlM ChannelHeader.set {}

structure Header where
  channelHeader : Option Bytes := none
  signatureHeader : Option Bytes := none

def Header.set (header : Header) (field : Field) : Header :=
  if field.tag = 10 then { header with channelHeader := some field.content }
  else if field.tag = 18 then
    { header with signatureHeader := some field.content }
  else header

structure Payload where
  header : Option Header := none
  data : Bytes := []

/-- One field of a payload.  A header that comes again is merged into the one
before it. -/
def Payload.set (payload : Payload) (field : Field) : Except WireError Payload :=
  if field.tag = 10 then do
    let fields ← fieldsOf field.content
    .ok
      { payload with
        header := some (fields.foldl Header.set (payload.header.getD {})) }
  else if field.tag = 18 then .ok { payload with data := field.content }
  else .ok payload

def unmarshalPayload (input : Bytes) : Except WireError Payload := do
  let fields ← fieldsOf input
  fields.foldlM Payload.set {}

def unmarshalText : String := "proto: cannot parse invalid wire-format data"

def unmarshalled {α : Type} (name : String) (result : Except ProtoWire.WireError α) : Outcome α :=
  match result with
  | .error _ => .error (.error ("error unmarshalling " ++ name ++ ": " ++ unmarshalText))
  | .ok value => .ok value

/-- `ChannelHeader`, for an envelope that is not nil. -/
def channelHeader (env : Envelope) : Except String ChannelHeader :=
  match unmarshalPayload env.payload with
  | .error _ => .error ("error unmarshalling Payload: " ++ unmarshalText)
  | .ok payload =>
    match payload.header with
    | none => .error "header not set"
    | some header =>
      match header.channelHeader with
      | none => .error "channel header not set"
      | some bytes =>
        match unmarshalChannelHeader bytes with
        | .error _ =>
          .error ("error unmarshalling channel header: " ++
            "error unmarshalling ChannelHeader: " ++ unmarshalText)
        | .ok chdr => .ok chdr

def headerTypeConfig : ℤ := 1

/-- The payload of a configuration transaction, as `HasConfigTx` sees it. -/
def isConfigPayload (input : Bytes) : Bool :=
  match unmarshalPayload input with
  | .error _ => false
  | .ok payload =>
    match payload.header with
    | none => false
    | some header =>
      match unmarshalChannelHeader (header.channelHeader.getD []) with
      | .error _ => false
      | .ok chdr => chdr.type = headerTypeConfig

variable {env : Envelope}

theorem isConfigPayload_of_channelHeader
    {chdr : ChannelHeader} (hch : channelHeader env = .ok chdr) :
    isConfigPayload env.payload = decide (chdr.type = headerTypeConfig) := by
  unfold channelHeader at hch
  split at hch
  · cases hch
  rename_i pl hp
  split at hch
  · cases hch
  rename_i header hh
  split at hch
  · cases hch
  rename_i bytes hby
  split at hch
  · cases hch
  next hg =>
    cases hch
    simp only [isConfigPayload, hp, hh, hby, Option.getD_some, hg]

def hasConfigTx (data : List Bytes) : Bool :=
  match data with
  | [marshaledEnvelope] =>
    match unmarshal marshaledEnvelope with
    | .error _ => false
    | .ok envelope => isConfigPayload envelope.payload
  | _ => false

/-- The body of the loop of `VerifyTransactionsAreWellFormed`. -/
def verifyTransaction (i : ℕ) (rawTx : Bytes) : Except String Unit :=
  match unmarshal rawTx with
  | .error _ => .error ("transaction " ++ toString i ++ " is invalid: " ++ unmarshalText)
  | .ok env =>
    if env.payload.length = 0 then
      .error ("transaction " ++ toString i ++ " has no payload")
    else if env.signature.length = 0 then
      .error ("transaction " ++ toString i ++ " has no signature")
    else if (marshal env).length < rawTx.length then
      .error ("transaction " ++ toString i ++ " has " ++
        toString (rawTx.length - (marshal env).length) ++ " trailing bytes")
    else if marshal env ≠ rawTx then
      .error ("transaction " ++ toString i ++ " does not match its raw form")
    else .ok ()

def verifyFrom : ℕ → List Bytes → Except String Unit
  | _, [] => .ok ()
  | i, rawTx :: rest => do
      verifyTransaction i rawTx
      verifyFrom (i + 1) rest

def verifyTransactionsAreWellFormed (data : List Bytes) : Except String Unit :=
  if data.length = 0 then .error "empty block"
  else if hasConfigTx data then .ok ()
  else verifyFrom 0 data

def computeBlockDataHash (hash : Bytes → Bytes) (data : List Bytes) : Bytes := hash data.flatten

def blockDataHash (hash : Bytes → Bytes) (data : List Bytes) : Except String Bytes := do
  verifyTransactionsAreWellFormed data
  .ok (computeBlockDataHash hash data)

def setEnvelope (env : Envelope) (field : Field) : Envelope :=
  if field.tag = 10 then { env with payload := field.content }
  else if field.tag = 18 then { env with signature := field.content }
  else { env with unknownFields := env.unknownFields ++ field.encode }

theorem tag_eq_iff {tag num : ℕ} : tag / 8 = num ∧ wireTypeOf tag = .bytes ↔ tag = num * 8 + 2 := by
  have hwr : wireTypeOf tag = .bytes ↔ tag % 8 = 2 := by
    unfold wireTypeOf
    have hbn : tag % 8 < 8 := Nat.mod_lt _ (by norm_num)
    interval_cases tag % 8 <;> simp
  rw [hwr]
  omega

variable {field : Field}

theorem setEnvelope_of_payload (ht : field.tag = 10) :
    setEnvelope env field = { env with payload := field.content } := by
  simp [setEnvelope, ht]

theorem setEnvelope_of_signature (ht : field.tag = 18) :
    setEnvelope env field = { env with signature := field.content } := by
  simp [setEnvelope, ht]

theorem setEnvelope_of_unknown (env : Envelope) (hp : field.tag ≠ 10) (hs : field.tag ≠ 18) :
    setEnvelope env field =
      { env with unknownFields := env.unknownFields ++ field.encode } := by
  simp [setEnvelope, hp, hs]

theorem unmarshalFields_eq_map (fuel : ℕ) (env : Envelope) (inp : Bytes) :
    (unmarshalFields fuel env inp).toOption =
      (parseFields fuel inp).toOption.map fun fields => fields.foldl setEnvelope env := by
  induction fuel generalizing env inp with
  | zero => cases inp <;> rfl
  | succ fuel ih =>
    cases inp with
    | nil => rfl
    | cons byte inp =>
      rw [unmarshalFields, parseFields]
      cases ht : consumeVarint (byte :: inp) with
      | error => rfl
      | ok r =>
        obtain ⟨tag, tl⟩ := r
        dsimp only
        by_cases hok : validTag tag = true
        · rw [if_pos hok]
          simp only [validTag, Bool.and_eq_true, decide_eq_true_eq, ne_eq] at hok
          rw [if_neg (by omega), if_neg hok.2]
          by_cases hp : tag = 10
          · have hwr := tag_eq_iff.mpr (show tag = 1 * 8 + 2 from hp)
            rw [if_pos hwr, ← consumeField_map_content hwr.2]
            cases hfl : consumeField tag tl with
            | error => rfl
            | ok read =>
              obtain ⟨heq, -, -⟩ := consumeField_spec hfl
              simp only [Except.map, ih, ← setEnvelope_of_payload (heq.trans hp)]
              cases parseFields fuel read.2 <;> rfl
          rw [if_neg fun hwr => hp (tag_eq_iff.mp hwr)]
          by_cases hs : tag = 18
          · have hwr := tag_eq_iff.mpr (show tag = 2 * 8 + 2 from hs)
            rw [if_pos hwr, ← consumeField_map_content hwr.2]
            cases hfl : consumeField tag tl with
            | error => rfl
            | ok read =>
              obtain ⟨heq, -, -⟩ := consumeField_spec hfl
              simp only [Except.map, ih, ← setEnvelope_of_signature (heq.trans hs)]
              cases parseFields fuel read.2 <;> rfl
          rw [if_neg fun hwr => hs (tag_eq_iff.mp hwr), ← consumeField_map_snd]
          cases hfl : consumeField tag tl with
          | error => rfl
          | ok read =>
            obtain ⟨heq, -, -⟩ := consumeField_spec hfl
            have hr := consumeField_raw hfl
            simp only [Except.map, ih, ← hr]
            rw [← heq] at hp hs
            have hset := setEnvelope_of_unknown env hp hs
            rw [Field.encode, heq] at hset
            rw [← hset]
            cases parseFields fuel read.2 <;> rfl
        · rw [if_neg hok]
          simp only [validTag, Bool.and_eq_true, decide_eq_true_eq, ne_eq, not_and, not_not] at hok
          by_cases hn : tag / 8 < 1 ∨ tag / 8 > 2 ^ 29 - 1
          · rw [if_pos hn]
            rfl
          · rw [if_neg hn, if_pos (hok (by omega))]
            rfl

theorem unmarshal_eq_ok_iff {inp : Bytes} :
    unmarshal inp = .ok env ↔
      ∃ fields, Parses inp fields ∧ fields.foldl setEnvelope emptyEnvelope = env := by
  have hm := unmarshalFields_eq_map inp.length emptyEnvelope inp
  constructor
  · intro hok
    rw [unmarshal] at hok
    rw [hok] at hm
    obtain ⟨fields, hf, hfl⟩ := Option.map_eq_some_iff.mp hm.symm
    exact ⟨fields, .of_parseFields (Except.eq_ok_of_toOption hf), hfl⟩
  · rintro ⟨_, hpa, rfl⟩
    rw [hpa.parseFields_eq le_rfl] at hm
    exact Except.eq_ok_of_toOption hm

/-! ## Envelopes that equal their own encoding -/

def WellFormed (rawTx : Bytes) : Prop :=
  ∃ env, unmarshal rawTx = .ok env ∧ env.payload ≠ [] ∧ env.signature ≠ [] ∧ marshal env = rawTx

variable {rawTx : Bytes}

theorem verifyTransaction_ok_iff {i : ℕ} :
    verifyTransaction i rawTx = .ok () ↔ WellFormed rawTx := by
  unfold verifyTransaction WellFormed
  cases unmarshal rawTx with
  | error => simp
  | ok env =>
    simp only [length_eq_zero_iff, Except.ok.injEq]
    split_ifs with hp hs hlen hr
    · simp [hp]
    · simp [hs]
    · simp only [false_iff]
      rintro ⟨_, rfl, -, -, heq⟩
      rw [heq] at hlen
      exact lt_irrefl _ hlen
    · simp [hr]
    · rw [not_not] at hr
      simp only [true_iff]
      exact ⟨env, rfl, hp, hs, hr⟩

def encodedLength (env : Envelope) : ℕ := (marshal env).length

theorem appendBytesField_length_le {num : ℕ} (hm : num < 16) (v : Bytes) :
    (appendBytesField num v).length ≤ 1 + (appendBytes v).length ∧
      (v = [] → (appendBytesField num v).length < 1 + (appendBytes v).length) := by
  by_cases hn : v = []
  · subst hn
    simp [appendBytesField_nil]
  · rw [appendBytesField_of_ne_nil hn, appendVarint_of_lt (by omega : num * 8 + 2 < 128)]
    simp [hn, add_comm]

theorem encodedLength_set (env : Envelope)
    (hby : wireTypeOf field.tag = .bytes → (appendBytes field.content).length ≤ field.raw.length) :
    encodedLength (setEnvelope env field) ≤ encodedLength env + field.encode.length ∧
      (field.tag = 10 →
        encodedLength (setEnvelope env field) = encodedLength env + field.encode.length →
        env.payload = [] ∧ field.content ≠ []) := by
  have hl : ∀ env : Envelope, encodedLength env =
      (appendBytesField 1 env.payload).length + (appendBytesField 2 env.signature).length +
        env.unknownFields.length := by
    intro env
    simp [encodedLength, marshal, add_assoc]
  by_cases hp : field.tag = 10
  · have hwr : wireTypeOf field.tag = .bytes := by
      rw [hp]
      rfl
    have hcn := hby hwr
    have hc : field.encode.length = 1 + field.raw.length := by
      rw [Field.encode, hp, appendVarint_of_lt (by norm_num)]
      simp [add_comm]
    obtain ⟨_, hno⟩ := appendBytesField_length_le (by norm_num : 1 < 16) field.content
    rw [setEnvelope_of_payload hp, hl, hl env, hc]
    refine ⟨by dsimp only; omega, ?_⟩
    intro _ htg
    dsimp only at htg
    constructor
    · by_contra hold
      have hpos := appendBytesField_length_pos 1 hold
      omega
    · intro hn
      have := hno hn
      omega
  · refine ⟨?_, fun ht => absurd ht hp⟩
    by_cases hs : field.tag = 18
    · have hwr : wireTypeOf field.tag = .bytes := by
        rw [hs]
        rfl
      have hcn := hby hwr
      have hc : field.encode.length = 1 + field.raw.length := by
        rw [Field.encode, hs, appendVarint_of_lt (by norm_num)]
        simp [add_comm]
      obtain ⟨_, -⟩ := appendBytesField_length_le (by norm_num : 2 < 16) field.content
      rw [setEnvelope_of_signature hs, hl, hl env, hc]
      dsimp only
      omega
    · rw [setEnvelope_of_unknown env hp hs, hl, hl env]
      simp [add_assoc]

def Roomy (fields : List Field) : Prop :=
  ∀ field ∈ fields, wireTypeOf field.tag = .bytes →
    (appendBytes field.content).length ≤ field.raw.length

def totalLength (fields : List Field) : ℕ := (fields.map fun field => field.encode.length).sum

variable {fields : List Field}

theorem encodedLength_foldl (hrm : Roomy fields) (env : Envelope) :
    encodedLength (fields.foldl setEnvelope env) ≤ encodedLength env + totalLength fields := by
  induction fields generalizing env with
  | nil => simp [totalLength]
  | cons field _ ih =>
    have hrs := ih (fun other hm => hrm other (mem_cons_of_mem field hm)) (setEnvelope env field)
    have hstep := (encodedLength_set env (hrm field mem_cons_self)).1
    simp only [totalLength, map_cons, sum_cons, foldl_cons] at hrs ⊢
    omega

theorem no_payload_of_tight (hrm : Roomy fields) (hp : env.payload ≠ [])
    (htg : encodedLength env + totalLength fields ≤ encodedLength (fields.foldl setEnvelope env)) :
    ∀ field ∈ fields, field.tag ≠ 10 := by
  induction fields generalizing env with
  | nil => simp
  | cons field fields ih =>
    have hl : Roomy fields := fun other hm =>
      hrm other (mem_cons_of_mem field hm)
    obtain ⟨_, hs⟩ := encodedLength_set env (hrm field mem_cons_self)
    have hrs := encodedLength_foldl hl (setEnvelope env field)
    simp only [totalLength, map_cons, sum_cons, foldl_cons] at htg hrs ih
    have hf : field.tag ≠ 10 := by
      intro ht
      exact hp (hs ht (by omega)).1
    have hkp : (setEnvelope env field).payload ≠ [] := by
      unfold setEnvelope
      rw [if_neg hf]
      split <;> exact hp
    intro other hm
    rcases mem_cons.mp hm with rfl | hm
    · exact hf
    · exact ih hl hkp (by omega) other hm

def Opens (fields : List Field) : Prop :=
  ∃ first rest, fields = first :: rest ∧ first.tag = 10 ∧ ∀ field ∈ rest, field.tag ≠ 10

theorem WellFormed.parses (hr : WellFormed rawTx) :
    ∃ fields, Parses rawTx fields ∧ Opens fields ∧
      marshal (fields.foldl setEnvelope emptyEnvelope) = rawTx := by
  obtain ⟨env, hok, hp, -, hmrs⟩ := hr
  obtain ⟨fields, hpa, hfl⟩ := unmarshal_eq_ok_iff.mp hok
  refine ⟨fields, hpa, ?_, hfl ▸ hmrs⟩
  have hrm : Roomy fields := fun field hm => hpa.bytes_le hm
  have htl : totalLength fields ≤ rawTx.length := hpa.length_le
  have hlen : encodedLength env = rawTx.length := by
    rw [encodedLength, hmrs]
  cases hpa with
  | nil =>
    rw [← hfl] at hp
    exact absurd rfl hp
  | @cons _ _ _ tag field fields ht _ hfi _ =>
    have hn : tag = 10 := by
      have hin : rawTx = appendVarint 10 ++
          (appendBytes env.payload ++ appendBytesField 2 env.signature ++ env.unknownFields) := by
        rw [← hmrs, marshal, appendBytesField_of_ne_nil hp]
        simp
      rw [hin, consumeVarint_appendVarint (by norm_num)] at ht
      cases ht
      rfl
    obtain ⟨heq, -, -⟩ := consumeField_spec hfi
    refine ⟨field, fields, rfl, heq.trans hn, ?_⟩
    have hl : Roomy fields := fun other hm =>
      hrm other (mem_cons_of_mem field hm)
    obtain ⟨_, hs⟩ := encodedLength_set emptyEnvelope (hrm field mem_cons_self)
    have hbn := encodedLength_foldl hl (setEnvelope emptyEnvelope field)
    have hzr : encodedLength emptyEnvelope = 0 := rfl
    rw [foldl_cons] at hfl
    rw [hfl] at hbn
    simp only [totalLength, map_cons, sum_cons] at htl hbn
    have hcn := (hs (heq.trans hn) (by omega)).2
    have hkp : (setEnvelope emptyEnvelope field).payload ≠ [] := by
      rw [setEnvelope_of_payload (heq.trans hn)]
      exact hcn
    apply no_payload_of_tight hl hkp
    rw [hfl]
    simp only [totalLength]
    omega

def fieldList (rawTx : Bytes) : List Field := (fieldsOf rawTx).toOption.getD []

theorem WellFormed.fieldList (hr : WellFormed rawTx) :
    Parses rawTx (fieldList rawTx) ∧ Opens (fieldList rawTx) ∧
      marshal ((Protoutil.fieldList rawTx).foldl setEnvelope emptyEnvelope) =
        rawTx := by
  obtain ⟨fields, hpa, hop, hm⟩ := hr.parses
  have hf : Protoutil.fieldList rawTx = fields := by
    rw [Protoutil.fieldList, fieldsOf_eq_ok_iff.mpr hpa]
    rfl
  rw [hf]
  exact ⟨hpa, hop, hm⟩

variable {data : List Bytes}

theorem parses_flatten (hdt : ∀ rawTx ∈ data, WellFormed rawTx) :
    Parses data.flatten (data.map fieldList).flatten := by
  induction data with
  | nil => exact .nil
  | cons rawTx _ ih =>
    rw [flatten_cons, map_cons, flatten_cons]
    exact (hdt rawTx mem_cons_self).fieldList.1.append
      (ih fun other hm => hdt other (mem_cons_of_mem rawTx hm))

theorem takeWhile_of_opens {rest : List Field}
    (hrs : ∀ field ∈ rest, field.tag ≠ 10) {gs : List (List Field)} (hgr : ∀ g ∈ gs, Opens g) :
    (rest ++ gs.flatten).takeWhile (fun field => field.tag ≠ 10) = rest := by
  have hst : gs.flatten.takeWhile (fun field => decide (field.tag ≠ 10)) = [] := by
    cases gs with
    | nil => rfl
    | cons g =>
      obtain ⟨_, _, rfl, ht, -⟩ := hgr g mem_cons_self
      simp [ht]
  rw [takeWhile_append_of_pos (by simpa using hrs), hst, append_nil]

theorem flatten_injective_of_opens {first second : List (List Field)} (hf : ∀ g ∈ first, Opens g)
    (hs : ∀ g ∈ second, Opens g) (heq : first.flatten = second.flatten) : first = second := by
  induction first generalizing second with
  | nil =>
    cases second with
    | nil => rfl
    | cons g =>
      obtain ⟨_, _, rfl, -⟩ := hs g mem_cons_self
      simp at heq
  | cons g first ih =>
    cases second with
    | nil =>
      obtain ⟨_, _, rfl, -⟩ := hf g mem_cons_self
      simp at heq
    | cons other second =>
      obtain ⟨_, tl, rfl, -, hrs⟩ := hf g mem_cons_self
      obtain ⟨_, others, rfl, -, hos⟩ := hs other mem_cons_self
      have hfr' : ∀ g ∈ first, Opens g :=
        fun g hm => hf g (mem_cons_of_mem _ hm)
      have hs' : ∀ g ∈ second, Opens g :=
        fun g hm => hs g (mem_cons_of_mem _ hm)
      simp only [flatten_cons, cons_append, cons.injEq] at heq
      obtain ⟨rfl, heq⟩ := heq
      have hc : tl = others := by
        rw [← takeWhile_of_opens hrs hfr', heq, takeWhile_of_opens hos hs']
      subst hc
      rw [ih hfr' hs' (append_cancel_left heq)]

theorem eq_of_flatten_eq {first second : List Bytes} (hf : ∀ rawTx ∈ first, WellFormed rawTx)
    (hs : ∀ rawTx ∈ second, WellFormed rawTx)
    (heq : first.flatten = second.flatten) : first = second := by
  have hop : ∀ {data : List Bytes}, (∀ rawTx ∈ data, WellFormed rawTx) →
      ∀ g ∈ data.map fieldList, Opens g := by
    intro _ hdt _ hm
    obtain ⟨rawTx, hrw, rfl⟩ := mem_map.mp hm
    exact (hdt rawTx hrw).fieldList.2.1
  have hr : ∀ {data : List Bytes}, (∀ rawTx ∈ data, WellFormed rawTx) →
      (data.map fieldList).map (fun fields => marshal (fields.foldl setEnvelope emptyEnvelope)) =
        data := by
    intro data hdt
    rw [map_map]
    conv_rhs => rw [← map_id data]
    apply map_congr_left
    intro rawTx hm
    exact (hdt rawTx hm).fieldList.2.2
  have hpa := parses_flatten hf
  rw [heq] at hpa
  have hgr := flatten_injective_of_opens (hop hf) (hop hs) (hpa.unique (parses_flatten hs))
  rw [← hr hf, hgr, hr hs]

theorem payload_of_opens (hop : Opens fields) (first b : Envelope) :
    (fields.foldl setEnvelope first).payload = (fields.foldl setEnvelope b).payload := by
  obtain ⟨_, tl, rfl, ht, hrs⟩ := hop
  have hkp : ∀ env : Envelope, (tl.foldl setEnvelope env).payload = env.payload := by
    intro env
    refine foldlRecOn tl setEnvelope (motive := fun post => post.payload = env.payload) rfl ?_
    intro _ hp field hm
    unfold setEnvelope
    rw [if_neg (hrs field hm)]
    split <;> exact hp
  rw [foldl_cons, foldl_cons, hkp, hkp, setEnvelope_of_payload ht, setEnvelope_of_payload ht]

theorem hasConfigTx_flatten {pre : List Bytes} {la : Bytes}
    (hdt : ∀ rawTx ∈ pre ++ [la], WellFormed rawTx) :
    hasConfigTx [(pre ++ [la]).flatten] = hasConfigTx [la] := by
  have hla := (hdt la (by simp)).fieldList
  have hwh := unmarshal_eq_ok_iff.mpr ⟨_, parses_flatten hdt, rfl⟩
  have hsn := unmarshal_eq_ok_iff.mpr ⟨_, hla.1, rfl⟩
  rw [hasConfigTx, hwh, hasConfigTx, hsn]
  dsimp only
  congr 1
  rw [map_append, flatten_append, foldl_append]
  simp only [map_cons, map_nil, flatten_cons, flatten_nil, append_nil]
  exact payload_of_opens hla.2.1 _ _

theorem verifyFrom_ok_iff {start : ℕ} :
    verifyFrom start data = .ok () ↔ ∀ rawTx ∈ data, WellFormed rawTx := by
  induction data generalizing start with
  | nil => simp [verifyFrom]
  | cons _ _ ih =>
    rw [verifyFrom, Except.bind_eq_ok_iff, forall_mem_cons]
    constructor
    · rintro ⟨⟨⟩, hf, hrs⟩
      exact ⟨verifyTransaction_ok_iff.mp hf, ih.mp hrs⟩
    · rintro ⟨hf, hrs⟩
      exact ⟨(), verifyTransaction_ok_iff.mpr hf, ih.mpr hrs⟩

theorem verifyTransactionsAreWellFormed_ok_iff :
    verifyTransactionsAreWellFormed data = .ok () ↔
      data ≠ [] ∧ (hasConfigTx data = true ∨ ∀ rawTx ∈ data, WellFormed rawTx) := by
  unfold verifyTransactionsAreWellFormed
  split_ifs with hnil hcfg
  · simp [length_eq_zero_iff.mp hnil]
  · rw [length_eq_zero_iff] at hnil
    simp [hnil, hcfg]
  · rw [length_eq_zero_iff] at hnil
    rw [verifyFrom_ok_iff]
    simp [hnil, hcfg]

theorem length_of_hasConfigTx (hc : hasConfigTx data = true) : ∃ rawTx, data = [rawTx] := by
  match data with
  | [] => cases hc
  | [rawTx] => exact ⟨rawTx, rfl⟩
  | first :: second :: rest => cases hc

/-- The same bytes can be split in another way: either the last of several
transactions has a configuration payload, or the only transaction is a
concatenation of several well-formed ones. -/
def Resplits (data : List Bytes) : Prop :=
  (∃ before last, data = before ++ [last] ∧ before ≠ [] ∧ hasConfigTx [last] = true) ∨
  ∃ parts : List Bytes, 2 ≤ parts.length ∧
    (∀ rawTx ∈ parts, WellFormed rawTx) ∧ data = [parts.flatten]

theorem exists_other_of_resplits (hvr : verifyTransactionsAreWellFormed data = .ok ())
    (hrs : Resplits data) :
    ∃ other, verifyTransactionsAreWellFormed other = .ok () ∧
      other.flatten = data.flatten ∧ other ≠ data := by
  obtain ⟨-, hdt⟩ := verifyTransactionsAreWellFormed_ok_iff.mp hvr
  rcases hrs with ⟨pre, la, rfl, hp, hc⟩ | ⟨parts, hl, hpr, rfl⟩
  · have hs : hasConfigTx (pre ++ [la]) ≠ true := by
      intro hsn
      obtain ⟨_, hn⟩ := length_of_hasConfigTx hsn
      have := congrArg length hn
      simp at this
      exact hp this
    have hwl := hdt.resolve_left hs
    refine ⟨[(pre ++ [la]).flatten], ?_, by simp, ?_⟩
    · rw [verifyTransactionsAreWellFormed_ok_iff, hasConfigTx_flatten hwl]
      exact ⟨by simp, .inl hc⟩
    · intro hn
      have := congrArg length hn
      simp at this
      exact hp this
  · refine ⟨parts, ?_, by simp, ?_⟩
    · rw [verifyTransactionsAreWellFormed_ok_iff]
      exact ⟨by rintro rfl; simp at hl, .inr hpr⟩
    · intro hn
      have := congrArg length hn
      simp at this
      omega

theorem eq_of_not_resplits
    {data other : List Bytes} (hvr : verifyTransactionsAreWellFormed data = .ok ())
    (ho : verifyTransactionsAreWellFormed other = .ok ())
    (heq : other.flatten = data.flatten) (hn : ¬ Resplits data) : other = data := by
  obtain ⟨hne, hdt⟩ := verifyTransactionsAreWellFormed_ok_iff.mp hvr
  obtain ⟨hoth, hos⟩ := verifyTransactionsAreWellFormed_ok_iff.mp ho
  rcases hdt with hcfg | hwell
  · obtain ⟨_, rfl⟩ := length_of_hasConfigTx hcfg
    simp only [flatten_cons, flatten_nil, append_nil] at heq
    rcases hos with hotherConfig | hoe
    · obtain ⟨_, rfl⟩ := length_of_hasConfigTx hotherConfig
      simpa using heq
    by_cases hl : 2 ≤ other.length
    · exact absurd (.inr ⟨other, hl, hoe, by rw [heq]⟩) hn
    obtain ⟨single, rfl⟩ : ∃ single, other = [single] := by
      rw [← length_eq_one_iff]
      have := length_pos_iff.mpr hoth
      omega
    simpa using heq
  · rcases hos with hotherConfig | hoe
    · obtain ⟨_, rfl⟩ := length_of_hasConfigTx hotherConfig
      obtain ⟨pre, la, rfl⟩ := (eq_nil_or_concat' data).resolve_left hne
      by_cases hp : pre = []
      · subst hp
        simpa using heq
      · have hla : hasConfigTx [la] = true := by
          rw [← hasConfigTx_flatten hwell, ← heq]
          simpa using hotherConfig
        exact absurd (.inl ⟨pre, la, rfl, hp, hla⟩) hn
    · exact eq_of_flatten_eq hoe hwell heq

/-- The data hash determines the transactions of a block exactly when they
cannot be split in another way that passes the check. -/
theorem dataHash_binding_iff {hash : Bytes → Bytes} (hhash : Function.Injective hash)
    {data : List Bytes} (hverified : verifyTransactionsAreWellFormed data = .ok ()) :
    (∀ other, verifyTransactionsAreWellFormed other = .ok () →
      computeBlockDataHash hash other = computeBlockDataHash hash data →
      other = data) ↔
      ¬ Resplits data := by
  constructor
  · intro hbnd hrs
    obtain ⟨other, hoth, heq, hdf⟩ := exists_other_of_resplits hverified hrs
    exact hdf (hbnd other hoth (congrArg hash heq))
  · intro hunq _ hoth heq
    exact eq_of_not_resplits hverified hoth (hhash heq) hunq

/-- An endorsed transaction with a one-byte signature. -/
def sampleTx : Bytes := marshal { payload := [10, 4, 10, 2, 8, 3], signature := [7] }

/-- The same with the header of a configuration. -/
def sampleConfigTx : Bytes := marshal { payload := [10, 4, 10, 2, 8, 1], signature := [7] }

theorem dataHash_of_two_splits :
    verifyTransactionsAreWellFormed [sampleTx, sampleConfigTx] = .ok () ∧
      verifyTransactionsAreWellFormed [sampleTx ++ sampleConfigTx] = .ok () ∧
      ∀ hash : Bytes → Bytes,
        computeBlockDataHash hash [sampleTx, sampleConfigTx] =
          computeBlockDataHash hash [sampleTx ++ sampleConfigTx] := by
  refine ⟨by decide +kernel, by decide +kernel, ?_⟩
  intro hash
  simp [computeBlockDataHash]

theorem dataHash_binding_sample :
    verifyTransactionsAreWellFormed [sampleTx] = .ok () ∧
      ∀ other, verifyTransactionsAreWellFormed other = .ok () →
        computeBlockDataHash id other = computeBlockDataHash id [sampleTx] →
        other = [sampleTx] := by
  have hvr : verifyTransaction 0 sampleTx = .ok () := by decide +kernel
  have hwl := verifyTransaction_ok_iff.mp hvr
  have hunq : ¬ Resplits [sampleTx] := by
    rintro (⟨_, _, hdt, hpre, -⟩ | ⟨parts, hlen, hpr, hdt⟩)
    · have := congrArg length hdt
      simp at this
      exact hpre this
    · have hsn : parts = [sampleTx] := eq_of_flatten_eq hpr (by simpa using hwl) (by rw [hdt]; simp)
      rw [hsn] at hlen
      simp at hlen
  have hblk : verifyTransactionsAreWellFormed [sampleTx] = .ok () := by
    decide +kernel
  exact ⟨hblk, (dataHash_binding_iff Function.injective_id hblk).mpr hunq⟩

end FabricSequencer.Protoutil
