import FabricSequencer.NopaxosAccounting
import FabricSequencer.NopaxosConfiguration
import FabricSequencer.SequencerFraming

/-!
# Order of the transactions received from the sequencer

`UdpServer.Start` turns each datagram into one call of `Order` or `Configure`
on the chain of its channel.  `Order` is given the stamp of the datagram as a
sequencer number but does not put it into the message, so a chain orders by
arrival.  Two chains therefore agree on the order exactly as far as the
datagrams reached them in the same order.

`Order` hands its message over an unbuffered channel, so the next datagram is
read after the main loop took it.
-/

namespace FabricSequencer
namespace Multichannel

open BlockCutter NopaxosChain Framing List

variable {Bundle Config : Type}

/-- `Order`: neither the sequencer nor its number becomes part of the
message. -/
def order (env : Envelope) (configSeq _sequencerId _sequencerNumber : ℕ) : Message :=
  { configSeq := configSeq, content := .normalMsg env }

def configure (config : Envelope) (configSeq : ℕ) : Message :=
  { configSeq := configSeq, content := .configMsg config }

def channelHeader (C : Codec Config) (env : Envelope) : Except String ChannelHeader :=
  match C.unmarshalPayload env.payload with
  | .error text => .error text
  | .ok payload =>
    match payload.header with
    | none => .error "header not set"
    | some header =>
      match header.channelHeader with
      | none => .error "channel header not set"
      | some bytes =>
        match C.unmarshalChannelHeader bytes with
        | .error text => .error ("error unmarshalling channel header: " ++ text)
        | .ok chdr => .ok chdr

variable (R : Resources Bundle Config) (C : Codec Config)

/-- `BroadcastChannelSupport` of a registrar that has this one channel: the
result tells whether the message is a config update. -/
def broadcastChannelSupport (msg : Envelope) : Except String Bool :=
  match channelHeader C msg with
  | .error text => .error ("could not determine channel ID: " ++ text)
  | .ok chdr =>
    if chdr.channelId ≠ R.channelID then .error "channel does not exist"
    else
      match chdr.type with
      | .configUpdate => .ok true
      | .config => .error "message is of type that cannot be processed directly"
      | .ordererTransaction => .error "message is of type that is no longer supported"
      | _ => .ok false

/-- The message one turn of `UdpServer.Start` hands to the consenter. -/
def handOver (bundle : Bundle) (datagram : Bytes) : Outcome (Option Message) :=
  match udpServerReceive datagram with
  | none => .ok none
  | some (envelope, number) =>
    match broadcastChannelSupport R C envelope with
    | .error _ => .ok none
    | .ok false =>
      match processNormalMsg R bundle envelope with
      | .error (.panic text) => .error (.panic text)
      | .error (.error _) => .ok none
      | .ok configSeq => .ok (some (order envelope configSeq 1 number))
    | .ok true =>
      match processConfigUpdateMsg R C bundle envelope with
      | .error (.panic text) => .error (.panic text)
      | .error (.error _) => .ok none
      | .ok (config, configSeq) => .ok (some (configure config configSeq))

section

variable (chain : Chain (ChainSupport Bundle))

def startStep (datagram : Bytes) :
    Option (Chain (ChainSupport Bundle) × List (Effect (ChainSupport Bundle))) :=
  match handOver R C chain.support.bundle datagram with
  | .error _ => none
  | .ok none => some (chain, [])
  | .ok (some msg) => mainStep (consenterSupport R C) chain (.received msg)

def start (datagrams : List Bytes) :
    Option (Chain (ChainSupport Bundle) × List (Effect (ChainSupport Bundle))) :=
  EffectMachine.run (startStep R C) chain datagrams

end

def writtenTransactions (effects : List (Effect (ChainSupport Bundle))) : List Content :=
  effects.flatMap Effect.messages

/-- A datagram with a normal transaction that the configuration accepts. -/
def CarriesNormal (bundle : Bundle) (datagram : Bytes) (envelope : Envelope) (number : ℕ) : Prop :=
  udpServerReceive datagram = some (envelope, number) ∧
    broadcastChannelSupport R C envelope = .ok false ∧
    ∃ configSeq, processNormalMsg R bundle envelope = .ok configSeq

variable {R : Resources Bundle Config} {C : Codec Config} {bundle : Bundle}

theorem CarriesNormal.handOver_eq {datagram : Bytes} {env : Envelope} {num : ℕ}
    (hc : CarriesNormal R C bundle datagram env num) :
    handOver R C bundle datagram = .ok (some (order env (R.sequence bundle) 1 num)) := by
  obtain ⟨hr, hcl, configSeq, hpc⟩ := hc
  have hs := processNormalMsg_sequence hpc
  subst configSeq
  simp [handOver, hr, hcl, hpc]

structure Serving (bundle : Bundle) (chain : Chain (ChainSupport Bundle)) : Prop where
  bundle_eq : chain.support.bundle = bundle
  loop : chain.LoopInvariant

theorem orderWith_bundle (R : Resources Bundle Config) (C : Codec Config)
    (c : Chain (ChainSupport Bundle)) (bsz : BatchSize) (env : Envelope) :
    (orderWith (consenterSupport R C) c bsz env).1.support.bundle = c.support.bundle := by
  have hb : ∀ (bts : List (List Envelope)) (sp : ChainSupport Bundle),
      (writeBatches (consenterSupport R C) sp bts).1.bundle = sp.bundle := by
    intro bts
    induction bts with
    | nil => intro sp; rfl
    | cons batch _ ih =>
      intro sp
      exact ih (sp.writeBlock batch)
  exact hb _ _

variable {c : Chain (ChainSupport Bundle)}

theorem startStep_of_carriesNormal (hs : Serving bundle c) (hrs : checkResources R bundle = .ok ())
    {datagram : Bytes} {env : Envelope} {num : ℕ} (hc : CarriesNormal R C bundle datagram env num) :
    ∃ next em, startStep R C c datagram = some (next, em) ∧ Serving bundle next ∧
      writtenTransactions em ++ next.pendingContents = c.pendingContents ++ [.normalMsg env] := by
  obtain ⟨_, hlp⟩ := hs
  subst bundle
  obtain ⟨oc, ho⟩ := checkResources_eq_ok hrs
  have hhn := hc.handOver_eq
  have hfr : ¬ R.sequence c.support.bundle <
      (consenterSupport R C).sequence c.support := Nat.lt_irrefl _
  have hstep : startStep R C c datagram =
      some (orderWith (consenterSupport R C) c oc.batchSize env) := by
    have hbt : (consenterSupport R C).batchSize c.support = .ok oc.batchSize := by
      simp [consenterSupport, ordererBatchSize, ho]
    unfold startStep
    simp only [hhn, mainStep, receiveMessage, order, if_neg hfr, orderNormal, hbt]
  have ha : R.sequence c.support.bundle < (consenterSupport R C).sequence c.support →
      ∃ newSeq, (consenterSupport R C).processNormalMsg c.support env =
        .ok newSeq := fun hsl => absurd hsl hfr
  have hsp := orderWith_spec oc.batchSize hlp ha
  refine ⟨_, _, hstep, ⟨orderWith_bundle R C c oc.batchSize env, hsp.invariant⟩, ?_⟩
  have hb := hsp.balance
  simp only [admitted, if_neg hfr] at hb
  exact hb

theorem start_of_carriesNormal (hrs : checkResources R bundle = .ok ())
    {arrivals : List (Bytes × Envelope × ℕ)}
    (hc : ∀ arrival ∈ arrivals, CarriesNormal R C bundle arrival.1 arrival.2.1 arrival.2.2)
    (hs : Serving bundle c) :
    ∃ fn efs, start R C c (arrivals.map Prod.fst) = some (fn, efs) ∧
      writtenTransactions efs ++ fn.pendingContents =
        c.pendingContents ++ arrivals.map (fun arrival => .normalMsg arrival.2.1) := by
  induction arrivals generalizing c with
  | nil => exact ⟨c, [], rfl, by simp [writtenTransactions]⟩
  | cons arrival arrivals ih =>
    obtain ⟨next, em, hstep, hnx, hb⟩ := startStep_of_carriesNormal hs hrs (hc arrival (by simp))
    obtain ⟨fn, lt, hr, hre⟩ := ih (fun other hm => hc other (by simp [hm])) hnx
    refine ⟨fn, em ++ lt, ?_, ?_⟩
    · exact EffectMachine.run_cons_eq_some_iff.mpr ⟨next, em, lt, hstep, hr, rfl⟩
    calc
      writtenTransactions (em ++ lt) ++ fn.pendingContents =
          writtenTransactions em ++ (writtenTransactions lt ++ fn.pendingContents) := by
          simp [writtenTransactions]
      _ = (writtenTransactions em ++ next.pendingContents) ++
            arrivals.map (fun arrival => .normalMsg arrival.2.1) := by
          rw [hre, append_assoc]
      _ = c.pendingContents ++ (arrival :: arrivals).map
            (fun arrival => .normalMsg arrival.2.1) := by
          rw [hb]
          simp

theorem prefix_or_prefix_iff {α : Type}
    {first b whole other : List α} (hf : first <+: whole) (hs : b <+: other) :
    (first <+: b ∨ b <+: first) ↔
      whole.take (min first.length b.length) = other.take (min first.length b.length) := by
  rw [prefix_iff_eq_take] at hf hs
  have hfr : whole.take (min first.length b.length) = first.take (min first.length b.length) := by
    rw [hf, take_take, ← hf]
    congr 1
    omega
  have hsc : other.take (min first.length b.length) = b.take (min first.length b.length) := by
    rw [hs, take_take, ← hs]
    congr 1
    omega
  rw [hfr, hsc]
  constructor
  · rintro (hsh | hsh)
    · rw [min_eq_left hsh.length_le, take_length]
      exact prefix_iff_eq_take.mp hsh
    · rw [min_eq_right hsh.length_le, take_length]
      exact (prefix_iff_eq_take.mp hsh).symm
  intro heq
  by_cases hle : first.length ≤ b.length
  · left
    rw [min_eq_left hle, take_length] at heq
    exact prefix_iff_eq_take.mpr heq
  · right
    rw [min_eq_right (by omega), take_length] at heq
    exact prefix_iff_eq_take.mpr heq.symm

/-- Two chains of one configuration write prefixes of the transactions in the
order of their arrival, whatever the stamps are.  The written sequences agree
exactly when the arrivals agree as far as both have written. -/
theorem start_agreement_iff (R : Resources Bundle Config) (C : Codec Config) (bundle : Bundle)
    (hresources : checkResources R bundle = .ok ())
    (firstSupport secondSupport : ChainSupport Bundle) (hfirstBundle : firstSupport.bundle = bundle)
    (hsecondBundle : secondSupport.bundle = bundle) (first second : List (Bytes × Envelope × ℕ))
    (hfirst : ∀ arrival ∈ first, CarriesNormal R C bundle arrival.1 arrival.2.1 arrival.2.2)
    (hsecond : ∀ arrival ∈ second, CarriesNormal R C bundle arrival.1 arrival.2.1 arrival.2.2) :
    ∃ firstChain firstEffects secondChain secondEffects,
      start R C (newChain firstSupport) (first.map Prod.fst) = some (firstChain, firstEffects) ∧
      start R C (newChain secondSupport) (second.map Prod.fst) = some (secondChain, secondEffects) ∧
      let firstArrivals := first.map fun arrival => Content.normalMsg arrival.2.1
      let secondArrivals := second.map fun arrival => Content.normalMsg arrival.2.1
      let firstWritten := writtenTransactions firstEffects
      let secondWritten := writtenTransactions secondEffects
      let common := min firstWritten.length secondWritten.length
      firstWritten <+: firstArrivals ∧ secondWritten <+: secondArrivals ∧
        ((firstWritten <+: secondWritten ∨ secondWritten <+: firstWritten) ↔
          firstArrivals.take common = secondArrivals.take common) := by
  obtain ⟨firstChain, firstEffects, hft, hfrs⟩ :=
    start_of_carriesNormal hresources hfirst ⟨hfirstBundle, newChain_loopInvariant firstSupport⟩
  obtain ⟨secondChain, secondEffects, hsd, hscn⟩ :=
    start_of_carriesNormal hresources hsecond ⟨hsecondBundle, newChain_loopInvariant secondSupport⟩
  have hfr : writtenTransactions firstEffects <+:
      first.map fun arrival => Content.normalMsg arrival.2.1 :=
    ⟨firstChain.pendingContents, hfrs⟩
  have hsc : writtenTransactions secondEffects <+:
      second.map fun arrival => Content.normalMsg arrival.2.1 :=
    ⟨secondChain.pendingContents, hscn⟩
  exact ⟨firstChain, firstEffects, secondChain, secondEffects, hft, hsd, hfr, hsc,
    prefix_or_prefix_iff hfr hsc⟩

/-- Two transactions with their stamps, as they leave a sequencer that
numbers them. -/
def stampedOne : Bytes × Envelope × ℕ :=
  (marshal { payload := [1, 1], signature := [] } ++ [0, 1],
    { payload := [1, 1], signature := [] }, 1)

def stampedTwo : Bytes × Envelope × ℕ :=
  (marshal { payload := [2, 2], signature := [] } ++ [0, 2],
    { payload := [2, 2], signature := [] }, 2)

theorem stampedOne_carriesNormal :
    CarriesNormal numberedResources numberedCodec 0 stampedOne.1 stampedOne.2.1 stampedOne.2.2 :=
  ⟨by decide, rfl, 0, rfl⟩

theorem stampedTwo_carriesNormal :
    CarriesNormal numberedResources numberedCodec 0 stampedTwo.1 stampedTwo.2.1 stampedTwo.2.2 :=
  ⟨by decide, rfl, 0, rfl⟩

/-- The two transactions in either order of arrival: each chain writes one
block, and the blocks disagree. -/
theorem start_disagrees_on_swapped_arrivals :
    stampedOne.2.2 ≠ stampedTwo.2.2 ∧
      ∃ firstChain firstEffects secondChain secondEffects,
        start numberedResources numberedCodec (newChain ⟨0, [], []⟩)
          [stampedOne.1, stampedTwo.1] = some (firstChain, firstEffects) ∧
        start numberedResources numberedCodec (newChain ⟨0, [], []⟩)
          [stampedTwo.1, stampedOne.1] = some (secondChain, secondEffects) ∧
        ¬ (writtenTransactions firstEffects <+: writtenTransactions secondEffects) ∧
        ¬ (writtenTransactions secondEffects <+: writtenTransactions firstEffects) :=
  ⟨by decide, _, _, _, _, rfl, rfl, by decide, by decide⟩

theorem start_agreement_iff_at_stamped :
    ∃ firstChain firstEffects secondChain secondEffects,
      start numberedResources numberedCodec (newChain ⟨0, [], []⟩)
        [stampedOne.1, stampedTwo.1] = some (firstChain, firstEffects) ∧
      start numberedResources numberedCodec (newChain ⟨0, [], []⟩)
        [stampedOne.1] = some (secondChain, secondEffects) ∧
      (writtenTransactions firstEffects <+: writtenTransactions secondEffects ∨
        writtenTransactions secondEffects <+: writtenTransactions firstEffects) := by
  obtain ⟨firstChain, firstEffects, secondChain, secondEffects, hfst, hsnd, -, hprf, hiff⟩ :=
    start_agreement_iff numberedResources numberedCodec 0 rfl ⟨0, [], []⟩
      ⟨0, [], []⟩ rfl rfl [stampedOne, stampedTwo] [stampedOne]
      (by
        intro _ hmem
        simp only [mem_cons, not_mem_nil, or_false] at hmem
        rcases hmem with rfl | rfl
        · exact stampedOne_carriesNormal
        · exact stampedTwo_carriesNormal)
      (by
        intro _ hmem
        rw [mem_singleton.mp hmem]
        exact stampedOne_carriesNormal)
  refine ⟨firstChain, firstEffects, secondChain, secondEffects, hfst, hsnd, hiff.mpr ?_⟩
  have hsh : min (writtenTransactions firstEffects).length
      (writtenTransactions secondEffects).length ≤ 1 :=
    (min_le_right _ _).trans hprf.length_le
  interval_cases min (writtenTransactions firstEffects).length
    (writtenTransactions secondEffects).length <;> rfl

end Multichannel

end FabricSequencer
