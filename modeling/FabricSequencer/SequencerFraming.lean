import FabricSequencer.BlockCutter

/-!
# Framing of transactions on the sequenced path

A transaction travels as one datagram from the gateway to the sequencer and as
another from the sequencer to the orderer.  Each datagram is the protobuf
encoding of the envelope followed by two stamp bytes, and each receiver reads
it into a buffer of 10240 bytes, strips two bytes and decodes the rest.

The socket is outside the program: `maxDatagram` is the largest datagram its
`Write` accepts, and a datagram may be lost on either hop.
-/

namespace FabricSequencer
namespace Framing

open ProtoWire List Option

def marshal (env : Envelope) : Bytes :=
  appendBytesField 1 env.payload ++ appendBytesField 2 env.signature ++ env.unknownFields

/-- The loop of `unmarshalPointer` for an envelope.  A known field number with
another wire type is kept as an unknown field. -/
def unmarshalFields : ℕ → Envelope → Bytes → Except WireError Envelope
  | _, env, [] => .ok env
  | 0, _, _ :: _ => .error .truncated
  | fuel + 1, env, byte :: input =>
    match consumeVarint (byte :: input) with
    | .error error => .error error
    | .ok (tag, rest) =>
      if tag / 8 < 1 ∨ tag / 8 > 2 ^ 29 - 1 then .error .fieldNumber
      else if wireTypeOf tag = .endGroup then .error .endGroup
      else if tag / 8 = 1 ∧ wireTypeOf tag = .bytes then
        match consumeBytes rest with
        | .error error => .error error
        | .ok (value, after) => unmarshalFields fuel { env with payload := value } after
      else if tag / 8 = 2 ∧ wireTypeOf tag = .bytes then
        match consumeBytes rest with
        | .error error => .error error
        | .ok (value, after) => unmarshalFields fuel { env with signature := value } after
      else
        match consumeFieldValue (tag / 8) (wireTypeOf tag) rest with
        | .error error => .error error
        | .ok after =>
          let field := appendVarint tag ++ rest.take (rest.length - after.length)
          unmarshalFields fuel
            { env with unknownFields := env.unknownFields ++ field } after

def emptyEnvelope : Envelope where
  payload := []
  signature := []

def unmarshal (input : Bytes) : Except WireError Envelope :=
  unmarshalFields input.length emptyEnvelope input

def bufferSize : ℕ := 10240

def seqBytes : Bytes := [0, 0]

variable (maxDatagram : ℕ)

/-- `conn.Write` of the marshalled envelope with the stamp appended. -/
def send (txn : Envelope) : Option Bytes :=
  let datagram := marshal txn ++ seqBytes
  if datagram.length > maxDatagram then none else some datagram

def broadcastByUDP (txn : Envelope) : Option Bytes := send maxDatagram txn

def forward (tx : Envelope) : Option Bytes := send maxDatagram tx

variable (datagram : Bytes)

/-- `ReadFromUDP` fills the buffer and drops what does not fit. -/
def readFromUDP : Bytes := datagram.take bufferSize

def decodeDatagram : Option (Bytes × Envelope) :=
  let received := readFromUDP datagram
  let n := received.length
  if n < 2 then none
  else
    match unmarshal (received.take (n - 2)) with
    | .error _ => none
    | .ok envelope => some (received.drop (n - 2), envelope)

def sequencerMain : Option Bytes :=
  match decodeDatagram datagram with
  | none => none
  | some (_, envelope) => forward maxDatagram envelope

/-- `binary.BigEndian.Uint64` of the two bytes padded on the left. -/
def stampNumber (extraBytes : Bytes) : ℕ :=
  extraBytes.foldl (fun number byte => number * 256 + byte.val) 0

/-- The first half of a turn of `UdpServer.Start`: the envelope it passes to
`BroadcastChannelSupport` and the sequencer number. -/
def udpServerReceive : Option (Envelope × ℕ) :=
  match decodeDatagram datagram with
  | none => none
  | some (extraBytes, envelope) => some (envelope, stampNumber extraBytes)

def transport (lost : Bool) (datagram : Option Bytes) : Option Bytes :=
  if lost then none else datagram

/-- The envelope that reaches the orderer, if one does. -/
def sequencedPath (lostFirst lostSecond : Bool) (txn : Envelope) : Option Envelope := do
  let first ← transport lostFirst (broadcastByUDP maxDatagram txn)
  let second ← transport lostSecond (sequencerMain maxDatagram first)
  let (envelope, _) ← udpServerReceive second
  pure envelope

/-! ## Decoding whole and cut encodings -/

variable {number : ℕ}

private theorem consumeVarint_tag (hn : number = 1 ∨ number = 2) (tl : Bytes) :
    consumeVarint (appendVarint (number * 8 + 2) ++ tl) = .ok (number * 8 + 2, tl) := by
  apply consumeVarint_appendVarint
  omega

def setField (env : Envelope) (number : ℕ) (value : Bytes) : Envelope :=
  if number = 1 then { env with payload := value }
  else { env with signature := value }

variable {v : Bytes}

theorem unmarshalFields_field (hn : number = 1 ∨ number = 2)
    (hval : v ≠ []) (hl : v.length < 2 ^ 64) (fuel : ℕ) (env : Envelope) (rest : Bytes) :
    unmarshalFields (fuel + 1) env (appendBytesField number v ++ rest) =
      unmarshalFields fuel (setField env number v) rest := by
  have hin : appendBytesField number v ++ rest =
      octet (number * 8 + 2) :: (appendBytes v ++ rest) := by
    rw [appendBytesField_of_ne_nil hval, appendVarint_of_lt (by omega : number * 8 + 2 < 128)]
    simp
  have ht : consumeVarint (octet (number * 8 + 2) :: (appendBytes v ++ rest)) =
      .ok (number * 8 + 2, appendBytes v ++ rest) := by
    have h := consumeVarint_tag hn (appendBytes v ++ rest)
    rwa [appendVarint_of_lt (by omega : number * 8 + 2 < 128)] at h
  rw [hin, unmarshalFields, ht]
  rcases hn with rfl | rfl <;> simp [wireTypeOf, consumeBytes_appendBytes hl, setField]

theorem unmarshalFields_take_field (hn : number = 1 ∨ number = 2)
    (hl : v.length < 2 ^ 64) {count : ℕ} (hp : 0 < count)
    (hc : count < (appendBytesField number v).length) (fuel : ℕ) (env : Envelope) :
    ∃ error, unmarshalFields (fuel + 1) env
      ((appendBytesField number v).take count) = .error error := by
  have hval : v ≠ [] := by
    rintro rfl
    simp [appendBytesField_nil] at hc
  have hfl : appendBytesField number v = octet (number * 8 + 2) :: appendBytes v := by
    rw [appendBytesField_of_ne_nil hval, appendVarint_of_lt (by omega : number * 8 + 2 < 128)]
    simp
  obtain ⟨taken, rfl⟩ : ∃ taken, count = taken + 1 := ⟨count - 1, by omega⟩
  rw [hfl, length_cons] at hc
  have ht : consumeVarint (octet (number * 8 + 2) :: (appendBytes v).take taken) =
      .ok (number * 8 + 2, (appendBytes v).take taken) := by
    have h := consumeVarint_tag hn ((appendBytes v).take taken)
    rwa [appendVarint_of_lt (by omega : number * 8 + 2 < 128)] at h
  have hby := consumeBytes_take hl (by omega : taken < (appendBytes v).length)
  refine ⟨.truncated, ?_⟩
  rw [hfl, take_succ_cons, unmarshalFields, ht]
  rcases hn with rfl | rfl <;> simp [wireTypeOf, hby]

theorem unmarshalFields_nil (fuel : ℕ) (env : Envelope) :
    unmarshalFields fuel env [] = .ok env := by
  cases fuel <;> rfl

variable {env : Envelope}

theorem marshal_eq (hwire : env.unknownFields = []) :
    marshal env = appendBytesField 1 env.payload ++ appendBytesField 2 env.signature := by
  simp [marshal, hwire]

theorem appendBytesField_length_pos (number : ℕ) (hval : v ≠ []) :
    2 ≤ (appendBytesField number v).length := by
  have ht := appendVarint_length_pos (number * 8 + 2)
  have hl := appendVarint_length_pos v.length
  rw [appendBytesField_of_ne_nil hval]
  simp only [appendBytes, length_append]
  omega

theorem unmarshal_payload_append
    {payload : Bytes} (hpay : payload ≠ []) (hl : payload.length < 2 ^ 64) (tl : Bytes) :
    ∃ fuel, unmarshal (appendBytesField 1 payload ++ tl) =
        unmarshalFields fuel { payload := payload, signature := [] } tl ∧
      tl.length < fuel := by
  have hp := appendBytesField_length_pos 1 hpay
  refine ⟨(appendBytesField 1 payload).length - 1 + tl.length, ?_, by omega⟩
  unfold unmarshal
  rw [show (appendBytesField 1 payload ++ tl).length =
      (appendBytesField 1 payload).length - 1 + tl.length + 1 by
        simp only [length_append]
        omega]
  rw [unmarshalFields_field (.inl rfl) hpay hl]
  rfl

theorem unmarshal_signature {signature : Bytes} (hsig : signature ≠ [])
    (hl : signature.length < 2 ^ 64) {fuel : ℕ} (hfu : 0 < fuel) (env : Envelope) :
    unmarshalFields fuel env (appendBytesField 2 signature) =
      .ok { env with signature := signature } := by
  obtain ⟨less, rfl⟩ : ∃ less, fuel = less + 1 := ⟨fuel - 1, by omega⟩
  have hfl := unmarshalFields_field (.inr rfl) hsig hl less env []
  rw [append_nil, unmarshalFields_nil] at hfl
  exact hfl

section

variable (hwire : env.unknownFields = []) (hpay : env.payload.length < 2 ^ 64)
  (hsig : env.signature.length < 2 ^ 64)

include hwire hpay hsig

theorem unmarshal_marshal : unmarshal (marshal env) = .ok env := by
  rcases env with ⟨pl, sg, unknownFields⟩
  simp only at hwire hpay hsig
  subst unknownFields
  rw [marshal_eq rfl]
  by_cases hn : pl = []
  · subst pl
    rw [appendBytesField_nil, nil_append]
    by_cases hno : sg = []
    · subst sg
      rfl
    · have hp := appendBytesField_length_pos 2 hno
      unfold unmarshal
      rw [unmarshal_signature hno hsig (Nat.lt_of_lt_of_le two_pos hp)]
      rfl
  · obtain ⟨_, hf, _⟩ := unmarshal_payload_append hn hpay (appendBytesField 2 sg)
    rw [hf]
    by_cases hno : sg = []
    · subst sg
      rw [appendBytesField_nil, unmarshalFields_nil]
    · rw [unmarshal_signature hno hsig (by omega)]

theorem unmarshal_take_marshal {count : ℕ} (hp : 0 < count) (hc : count < (marshal env).length) :
    (count = (appendBytesField 1 env.payload).length ∧
        unmarshal ((marshal env).take count) = .ok { payload := env.payload, signature := [] }) ∨
      (count ≠ (appendBytesField 1 env.payload).length ∧
        ∃ error, unmarshal ((marshal env).take count) = .error error) := by
  rcases env with ⟨payload, signature, unknownFields⟩
  simp only at hwire hpay hsig
  subst unknownFields
  rw [marshal_eq rfl] at hc ⊢
  simp only at hc ⊢
  by_cases hn : payload = []
  · subst payload
    rw [appendBytesField_nil, nil_append] at hc ⊢
    refine .inr ⟨by simp only [length_nil]; omega, ?_⟩
    unfold unmarshal
    have htk : ((appendBytesField 2 signature).take count).length = count - 1 + 1 := by
      rw [length_take]
      omega
    rw [htk]
    exact unmarshalFields_take_field (.inr rfl) hsig hp hc _ _
  · rcases Nat.lt_trichotomy count (appendBytesField 1 payload).length with hinside | hbn | hbeyond
    · refine .inr ⟨by omega, ?_⟩
      rw [take_append_of_le_length hinside.le]
      unfold unmarshal
      have htk : ((appendBytesField 1 payload).take count).length = count - 1 + 1 := by
        rw [length_take]
        omega
      rw [htk]
      exact unmarshalFields_take_field (.inl rfl) hpay hp hinside _ _
    · refine .inl ⟨hbn, ?_⟩
      subst count
      obtain ⟨_, hf, -⟩ := unmarshal_payload_append hn hpay []
      rw [append_nil, unmarshalFields_nil] at hf
      rw [take_left]
      exact hf
    refine .inr ⟨by omega, ?_⟩
    have hrs : count - (appendBytesField 1 payload).length <
        (appendBytesField 2 signature).length := by
      rw [length_append] at hc
      omega
    obtain ⟨fuel, hf, _⟩ :=
      unmarshal_payload_append hn hpay
        ((appendBytesField 2 signature).take (count - (appendBytesField 1 payload).length))
    obtain ⟨less, rfl⟩ : ∃ less, fuel = less + 1 := ⟨fuel - 1, by omega⟩
    rw [take_append, take_of_length_le hbeyond.le, hf]
    exact unmarshalFields_take_field (.inr rfl) hsig (by omega) hrs _ _

end

theorem payloadField_length_iff {pl : Bytes} :
    (appendBytesField 1 pl).length = bufferSize - 2 ↔ pl.length = 10235 := by
  by_cases hn : pl = []
  · subst pl
    simp [appendBytesField_nil, bufferSize]
  have hfl : (appendBytesField 1 pl).length = 1 + (appendVarint pl.length).length + pl.length := by
    rw [appendBytesField_of_ne_nil hn, appendVarint_of_lt (by norm_num : 1 * 8 + 2 < 128)]
    simp only [appendBytes, length_append, length_singleton]
    omega
  rw [hfl, bufferSize]
  constructor
  · intro htl
    by_cases hsm : pl.length < 128
    · rw [appendVarint_of_lt hsm, length_singleton] at htl
      omega
    · rw [appendVarint_length_of_two_bytes (by omega) (by omega)] at htl
      omega
  · intro hex
    rw [hex, appendVarint_length_of_two_bytes (by norm_num) (by norm_num)]

/-! ## One hop and the whole path -/

def hop (txn : Envelope) : Option Envelope :=
  (send maxDatagram txn).bind fun datagram =>
    (decodeDatagram datagram).map Prod.snd

theorem decodeDatagram_stamped (data : Bytes) :
    (decodeDatagram (data ++ seqBytes)).map Prod.snd =
      (unmarshal (data.take (bufferSize - 2))).toOption := by
  have hl : (readFromUDP (data ++ seqBytes)).length = min (data.length + 2) bufferSize := by
    simp [readFromUDP, seqBytes, min_comm]
  have ht : ¬ min (data.length + 2) bufferSize < 2 := by
    simp only [bufferSize]
    omega
  have hst : (readFromUDP (data ++ seqBytes)).take
      (min (data.length + 2) bufferSize - 2) = data.take (bufferSize - 2) := by
    unfold readFromUDP
    rw [take_take]
    have hc : min (min (data.length + 2) bufferSize - 2) bufferSize =
        min (bufferSize - 2) data.length := by
      simp only [bufferSize]
      omega
    rw [hc, take_append_of_le_length (by omega), ← take_take, take_length]
  unfold decodeDatagram
  simp only [hl, if_neg ht, hst]
  cases unmarshal (data.take (bufferSize - 2)) <;> rfl

theorem sequencedPath_eq (lostFirst lostSecond : Bool) (txn : Envelope) :
    sequencedPath maxDatagram lostFirst lostSecond txn =
      if lostFirst ∨ lostSecond then none
      else (hop maxDatagram txn).bind (hop maxDatagram) := by
  unfold sequencedPath hop
  cases lostFirst with
  | true => simp [transport]
  | false =>
    simp only [transport, broadcastByUDP, Bool.false_eq_true, if_false, false_or]
    cases hsn : send maxDatagram txn with
    | none => simp
    | some first =>
      simp only [bind_eq_bind, bind_some, sequencerMain]
      cases hd : decodeDatagram first with
      | none => cases lostSecond <;> simp
      | some dc =>
        cases lostSecond with
        | true => simp
        | false =>
          simp only [Bool.false_eq_true, if_false, forward, map_some, bind_some]
          cases hf : send maxDatagram dc.2 with
          | none => simp
          | some b =>
            simp only [bind_some, udpServerReceive]
            cases decodeDatagram b <;> rfl

variable {maxDatagram : ℕ} {txn : Envelope}

theorem hop_of_not_sendable (hsz : maxDatagram < (marshal txn).length + 2) :
    hop maxDatagram txn = none := by
  have hln : (marshal txn ++ seqBytes).length > maxDatagram := by
    simpa [seqBytes] using hsz
  simp only [hop, send, if_pos hln, bind_none]

theorem hop_of_sendable (hsz : (marshal txn).length + 2 ≤ maxDatagram) :
    hop maxDatagram txn = (unmarshal ((marshal txn).take (bufferSize - 2))).toOption := by
  have hft : ¬ (marshal txn ++ seqBytes).length > maxDatagram := by
    simpa [seqBytes] using hsz
  simp only [hop, send, if_neg hft, bind_some]
  exact decodeDatagram_stamped (marshal txn)

theorem field_length_lt_of_sendable (hudp : maxDatagram ≤ 65535)
    (hsz : (marshal txn).length + 2 ≤ maxDatagram) :
    txn.payload.length < 2 ^ 64 ∧ txn.signature.length < 2 ^ 64 := by
  have hfl : ∀ number (v : Bytes), v.length ≤ (appendBytesField number v).length := by
    intro _ v
    by_cases hn : v = []
    · simp [hn]
    · rw [appendBytesField_of_ne_nil hn]
      simp only [appendBytes, length_append]
      omega
  have hpay := hfl 1 txn.payload
  have hsig := hfl 2 txn.signature
  simp only [marshal, length_append] at hsz
  constructor <;> omega

section

variable (hudp : maxDatagram ≤ 65535) (hwire : txn.unknownFields = [])
  (hsz : (marshal txn).length + 2 ≤ maxDatagram)

include hudp hwire hsz

theorem hop_of_short (hsh : (marshal txn).length ≤ bufferSize - 2) :
    hop maxDatagram txn = some txn := by
  obtain ⟨hpay, hsig⟩ := field_length_lt_of_sendable hudp hsz
  rw [hop_of_sendable hsz, take_of_length_le hsh, unmarshal_marshal hwire hpay hsig]
  rfl

theorem hop_of_long (hln : bufferSize - 2 < (marshal txn).length) :
    hop maxDatagram txn =
      if txn.payload.length = 10235 then
        some { payload := txn.payload, signature := [] }
      else none := by
  obtain ⟨hpay, hsig⟩ := field_length_lt_of_sendable hudp hsz
  rw [hop_of_sendable hsz]
  rcases unmarshal_take_marshal hwire hpay hsig (by norm_num [bufferSize]) hln with
    ⟨hbn, hd⟩ | ⟨hn, error, hd⟩
  · rw [if_pos (payloadField_length_iff.mp hbn.symm), hd]
    rfl
  · have ho : txn.payload.length ≠ 10235 := fun h =>
      hn (payloadField_length_iff.mpr h).symm
    rw [if_neg ho, hd]
    rfl

end

theorem marshal_long_iff_signature (hwire : txn.unknownFields = [])
    (hpay : txn.payload.length = 10235) :
    bufferSize - 2 < (marshal txn).length ↔ txn.signature ≠ [] := by
  rw [marshal_eq hwire, length_append, payloadField_length_iff.mpr hpay]
  by_cases hno : txn.signature = []
  · simp [hno, appendBytesField_nil]
  · have hp := appendBytesField_length_pos 2 hno
    simp only [hno, ne_eq, not_false_eq_true, iff_true]
    omega

theorem sequencedPath_strips_signature (hudp : maxDatagram ≤ 65535) (hwire : txn.unknownFields = [])
    (hpay : txn.payload.length = 10235) (hsig : txn.signature ≠ [])
    (hsz : (marshal txn).length + 2 ≤ maxDatagram) :
    sequencedPath maxDatagram false false txn =
      some { payload := txn.payload, signature := [] } := by
  have hln := (marshal_long_iff_signature hwire hpay).mpr hsig
  have hf := hop_of_long hudp hwire hsz hln
  rw [if_pos hpay] at hf
  have hst : (marshal { payload := txn.payload, signature := [] }).length = bufferSize - 2 := by
    rw [marshal_eq rfl]
    simpa [appendBytesField_nil] using payloadField_length_iff.mpr hpay
  have hs :
      hop maxDatagram { payload := txn.payload, signature := [] } =
        some { payload := txn.payload, signature := [] } :=
    hop_of_short hudp rfl (by omega) hst.le
  rw [sequencedPath_eq]
  simp [hf, hs]

/-- The sequenced path delivers every transaction unchanged or not at all,
except those whose payload field ends exactly where the buffer does and is
followed by a signature. -/
theorem sequencedPath_exact_iff (maxDatagram : ℕ) (hudp : maxDatagram ≤ 65535)
    (txn : Envelope) (hwire : txn.unknownFields = []) :
    (∀ lostFirst lostSecond delivered,
      sequencedPath maxDatagram lostFirst lostSecond txn = some delivered → delivered = txn) ↔
      ¬ (txn.payload.length = 10235 ∧ txn.signature ≠ [] ∧
        (marshal txn).length + 2 ≤ maxDatagram) := by
  constructor
  · rintro hexact ⟨hpay, hsig, hsz⟩
    have hdl := hexact false false _ (sequencedPath_strips_signature hudp hwire hpay hsig hsz)
    apply hsig
    rw [← hdl]
  intro hgd _ _ _ hpt
  rw [sequencedPath_eq] at hpt
  split_ifs at hpt
  by_cases hsz : (marshal txn).length + 2 ≤ maxDatagram
  · by_cases hsh : (marshal txn).length ≤ bufferSize - 2
    · have hfst := hop_of_short hudp hwire hsz hsh
      rw [hfst, bind_some, hfst] at hpt
      exact (Option.some.inj hpt).symm
    have hfst := hop_of_long hudp hwire hsz (by omega)
    by_cases hpay : txn.payload.length = 10235
    · exfalso
      apply hgd
      refine ⟨hpay, ?_, hsz⟩
      exact (marshal_long_iff_signature hwire hpay).mp (by omega)
    · rw [if_neg hpay] at hfst
      simp [hfst] at hpt
  · simp [hop_of_not_sendable (by omega : maxDatagram < (marshal txn).length + 2)] at hpt

/-- A signed transaction whose payload field fills the buffer. -/
def boundaryTxn : Envelope where
  payload := List.replicate 10235 0
  signature := [1]

theorem boundaryTxn_length : (marshal boundaryTxn).length = 10241 := by
  have hpay : boundaryTxn.payload.length = 10235 := length_replicate
  have hsig : (appendBytesField 2 boundaryTxn.signature).length = 3 := by
    decide
  rw [marshal_eq rfl, length_append, payloadField_length_iff.mpr hpay, hsig, bufferSize]

theorem sequencedPath_loses_signature :
    sequencedPath 65507 false false boundaryTxn =
        some { payload := boundaryTxn.payload, signature := [] } ∧
      ({ payload := boundaryTxn.payload, signature := [] } : Envelope) ≠
        boundaryTxn := by
  constructor
  · apply sequencedPath_strips_signature (by norm_num) rfl length_replicate (by decide)
    rw [boundaryTxn_length]
    norm_num
  · intro heq
    have hsig : [] = boundaryTxn.signature := congrArg Envelope.signature heq
    exact cons_ne_nil _ _ hsig.symm

theorem sequencedPath_exact_iff_at_signed :
    (∀ lostFirst lostSecond delivered,
      sequencedPath 65507 lostFirst lostSecond
          { payload := [1, 2], signature := [3] } = some delivered →
        delivered = { payload := [1, 2], signature := [3] }) ∧
      sequencedPath 65507 false false
          { payload := [1, 2], signature := [3] } =
        some { payload := [1, 2], signature := [3] } :=
  ⟨(sequencedPath_exact_iff 65507 (by norm_num) _ rfl).mpr
      (fun hboun => absurd hboun.1 (by decide)), by decide⟩

end Framing

end FabricSequencer
