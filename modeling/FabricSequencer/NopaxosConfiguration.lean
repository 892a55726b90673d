import FabricSequencer.MultichannelSupport

/-!
# Blocks and the configuration in force

A message enters the chain with the sequence number of the configuration that
accepted it.  A configuration is replaced only by a config block, and the
pending batch is written before that.  So the pending messages have always
passed the checks of the configuration in force, and a config block is always
computed from it, as long as the sequence numbers, which wrap around, grow.
-/

namespace FabricSequencer
namespace Multichannel

open BlockCutter NopaxosChain List Outcome

variable {Bundle Config : Type}

/-- What is assumed of the configuration packages and of protobuf. -/
structure Lawful (R : Resources Bundle Config) (C : Codec Config) : Prop where
  decode_signed : ∀ {channelId configEnvelope env},
    C.createSignedEnvelope .config channelId configEnvelope = .ok env →
      ∃ payload header, C.unmarshalPayload env.payload = .ok payload ∧
        payload.header = some header ∧
        C.unmarshalChannelHeader (header.channelHeader.getD []) = .ok ⟨.config, channelId⟩ ∧
        C.unmarshalConfigEnvelope payload.data = .ok configEnvelope
  lastUpdate_proposed : ∀ {bundle configtx configEnvelope},
    R.proposeConfigUpdate bundle configtx = .ok configEnvelope →
      configEnvelope.lastUpdate = some configtx
  validate_proposed : ∀ {bundle configtx configEnvelope},
    R.proposeConfigUpdate bundle configtx = .ok configEnvelope →
      R.validate bundle configEnvelope = .ok ()
  sequence_applied : ∀ {bundle next configEnvelope}, R.validate bundle configEnvelope = .ok () →
    R.createBundle R.channelID configEnvelope.config = .ok next →
      R.sequence next = uint64 (R.sequence bundle + 1)

/-! ## The message processor -/

variable {R : Resources Bundle Config} {bundle : Bundle}

theorem checkResources_eq_ok (hc : checkResources R bundle = .ok ()) :
    ∃ oc, R.ordererConfig bundle = some oc := by
  unfold checkResources at hc
  cases hord : R.ordererConfig bundle with
  | none => simp [hord] at hc
  | some oc => exact ⟨oc, rfl⟩

variable {oc : OrdererConfig}

theorem processNormalMsg_noPanic (hord : R.ordererConfig bundle = some oc)
    (env : Envelope) : (processNormalMsg R bundle env).NoPanic := by
  unfold processNormalMsg
  simp only [hord]
  split_ifs
  · exact noPanic_error _
  · cases applyRules (R.filters bundle) env with
    | error text => exact noPanic_error text
    | ok => exact noPanic_ok _

variable {seq : ℕ}

theorem processNormalMsg_sequence {env : Envelope} (hpc : processNormalMsg R bundle env = .ok seq) :
    seq = R.sequence bundle := by
  unfold processNormalMsg at hpc
  cases hord : R.ordererConfig bundle with
  | none => simp [hord] at hpc
  | some =>
    simp only [hord] at hpc
    split_ifs at hpc
    cases hrl : applyRules (R.filters bundle) env with
    | error => simp [hrl] at hpc
    | ok =>
      simp only [hrl, Except.ok.injEq] at hpc
      exact hpc.symm

theorem proposeConfigUpdate_eq_ok {configtx : Envelope} {configEnvelope : ConfigEnvelope Config}
    (hpr : proposeConfigUpdate R bundle configtx = .ok configEnvelope) :
    R.proposeConfigUpdate bundle configtx = .ok configEnvelope ∧
      ∃ next, R.createBundle R.channelID configEnvelope.config = .ok next ∧
        checkResources R next = .ok () := by
  unfold proposeConfigUpdate at hpr
  simp only [Except.bind_eq_ok_iff, returned_eq_ok_iff, withMessage_eq_ok_iff] at hpr
  obtain ⟨env, he, next, hnx, ⟨⟩, hc, ⟨⟩, -, hord⟩ := hpr
  have heq : env = configEnvelope := by
    split at hord
    · simp at hord
    · simp at hord
    · simpa using hord
  subst env
  exact ⟨he, next, hnx, hc⟩

variable {C : Codec Config} {update env : Envelope}

theorem processConfigUpdateMsg_eq_ok
    (hpc : processConfigUpdateMsg R C bundle update = .ok (env, seq)) :
    seq = R.sequence bundle ∧
      ∃ configEnvelope, proposeConfigUpdate R bundle update = .ok configEnvelope ∧
        C.createSignedEnvelope .config R.channelID configEnvelope = .ok env := by
  unfold processConfigUpdateMsg at hpc
  simp only [Except.bind_eq_ok_iff, returned_eq_ok_iff,
    withMessage_eq_ok_iff, pure, Except.pure, Except.ok.injEq, Prod.mk.injEq] at hpc
  obtain ⟨-, -, configEnvelope, hpr, config, hsg, -, -, -, -, _, hs⟩ := hpc
  subst config
  exact ⟨hs.symm, configEnvelope, hpr, hsg⟩

theorem unmarshalEnvelopeOfType_noPanic (C : Codec Config) (env : Envelope) :
    (unmarshalEnvelopeOfType C env).NoPanic := by
  unfold unmarshalEnvelopeOfType
  apply (noPanic_returned _).bind
  intro pl _
  cases pl.header with
  | none => exact noPanic_error _
  | some =>
    apply (noPanic_returned _).bind
    intro _ _
    split_ifs
    · exact noPanic_error _
    · exact (noPanic_returned _).withMessage _

section

variable (hord : R.ordererConfig bundle = some oc)

include hord

theorem maintenanceFilter_noPanic (C : Codec Config) (msg : Envelope) :
    (maintenanceFilter R C bundle msg).NoPanic := by
  unfold maintenanceFilter
  simp only [hord]
  apply ((unmarshalEnvelopeOfType_noPanic C msg).withMessage _).bind
  intro _ _
  exact (noPanic_returned _).withMessage _

theorem proposeConfigUpdate_noPanic (configtx : Envelope) :
    (proposeConfigUpdate R bundle configtx).NoPanic := by
  unfold proposeConfigUpdate
  apply (noPanic_returned _).bind
  intro env _
  apply (noPanic_returned _).bind
  intro _ _
  apply ((noPanic_returned _).withMessage _).bind
  intro _ hc
  rw [withMessage_eq_ok_iff, returned_eq_ok_iff] at hc
  obtain ⟨_, hn⟩ := checkResources_eq_ok hc
  apply (noPanic_returned _).bind
  intro _ _
  simp only [hord, hn]
  exact noPanic_ok env

theorem processConfigUpdateMsg_noPanic (C : Codec Config) (env : Envelope) :
    (processConfigUpdateMsg R C bundle env).NoPanic := by
  unfold processConfigUpdateMsg
  apply ((noPanic_returned _).withMessage _).bind
  intro _ _
  apply ((proposeConfigUpdate_noPanic hord env).withMessage _).bind
  intro _ _
  apply (noPanic_returned _).bind
  intro config _
  apply ((noPanic_returned _).withMessage _).bind
  intro _ _
  apply ((maintenanceFilter_noPanic hord C config).withMessage _).bind
  intro _ _
  exact noPanic_ok _

end

theorem processConfigMsg_of_accepted (hl : Lawful R C) {origin : Bundle}
    (ha : processConfigUpdateMsg R C origin update = .ok (env, seq)) (bundle : Bundle) :
    processConfigMsg R C bundle env = processConfigUpdateMsg R C bundle update := by
  obtain ⟨-, configEnvelope, hpr, hsg⟩ := processConfigUpdateMsg_eq_ok ha
  obtain ⟨_, _, hp, hh, hch, hd⟩ := hl.decode_signed hsg
  have hu := hl.lastUpdate_proposed (proposeConfigUpdate_eq_ok hpr).1
  have hun : unmarshalEnvelopeOfType C env = .ok configEnvelope := by
    simp [unmarshalEnvelopeOfType, hp, hh, hch, hd,
      Outcome.returned, Outcome.withMessage, Bind.bind, Except.bind]
  unfold processConfigMsg
  rw [hun]
  simp only [Bind.bind, Except.bind, hu]

theorem configBlockBundle_of_accepted (hl : Lawful R C) (hord : R.ordererConfig bundle = some oc)
    (ha : processConfigUpdateMsg R C bundle update = .ok (env, seq)) :
    ∃ next newConfig, configBlockBundle R C bundle [env] = .ok next ∧
      R.sequence next = uint64 (R.sequence bundle + 1) ∧
      R.ordererConfig next = some newConfig := by
  obtain ⟨-, _, hpr, hsg⟩ := processConfigUpdateMsg_eq_ok ha
  obtain ⟨_, _, hp, hh, hch, hd⟩ := hl.decode_signed hsg
  obtain ⟨hr, next, hnx, hc⟩ := proposeConfigUpdate_eq_ok hpr
  obtain ⟨newConfig, hn⟩ := checkResources_eq_ok hc
  have hok := hl.validate_proposed hr
  refine ⟨next, newConfig, ?_, ?_, hn⟩
  · simp [configBlockBundle, applyConfig, hp, hh, hch, hd, hok, hnx, hn, hord, hc, Outcome.returned,
      Outcome.orPanic, Bind.bind, Except.bind, Pure.pure, Except.pure]
  · exact hl.sequence_applied hok hnx

/-! ## The main loop -/

section

variable (R : Resources Bundle Config)

/-- A message enters with the sequence number under which one of the
configurations of the channel accepted it. -/
def Entered (C : Codec Config) (chain : Chain (ChainSupport Bundle)) : Event → Prop
  | .timerExpired => True
  | .received ⟨configSeq, .normalMsg env⟩ =>
    ∃ bundle ∈ chain.support.earlier ++ [chain.support.bundle],
      processNormalMsg R bundle env = .ok configSeq
  | .received ⟨configSeq, .configMsg env⟩ =>
    ∃ bundle ∈ chain.support.earlier ++ [chain.support.bundle], ∃ update,
      processConfigUpdateMsg R C bundle update = .ok (env, configSeq)

def InForce (C : Codec Config) : Effect (ChainSupport Bundle) → Prop
  | .wroteBlock support batch =>
    ∀ env ∈ batch, processNormalMsg R support.bundle env = .ok (R.sequence support.bundle)
  | .wroteConfigBlock support batch =>
    ∃ update env next, batch = [env] ∧
      processConfigUpdateMsg R C support.bundle update = .ok (env, R.sequence support.bundle) ∧
      support.writeConfigBlock R C batch = .ok next
  | _ => True

structure Settled (chain : Chain (ChainSupport Bundle)) : Prop where
  cutter : chain.cutter.WellFormed
  orderer : ∃ oc, R.ordererConfig chain.support.bundle = some oc
  earlier : ∀ bundle ∈ chain.support.earlier, R.sequence bundle < R.sequence chain.support.bundle
  pending : ∀ env ∈ chain.cutter.pending,
    processNormalMsg R chain.support.bundle env = .ok (R.sequence chain.support.bundle)

end

variable {chain c : Chain (ChainSupport Bundle)}

theorem Settled.eq_bundle_of_not_stale
    (hs : Settled R c) (hm : bundle ∈ c.support.earlier ++ [c.support.bundle])
    (hfr : ¬ R.sequence bundle < R.sequence c.support.bundle) : bundle = c.support.bundle := by
  rcases mem_append.mp hm with hearl | hcur
  · exact absurd (hs.earlier bundle hearl) hfr
  · exact mem_singleton.mp hcur

theorem writeBatches_inForce (sp : ChainSupport Bundle) {bts : List (List Envelope)}
    (hp : ∀ env ∈ bts.flatten, processNormalMsg R sp.bundle env = .ok (R.sequence sp.bundle)) :
    (writeBatches (consenterSupport R C) sp bts).1.bundle = sp.bundle ∧
      (writeBatches (consenterSupport R C) sp bts).1.earlier = sp.earlier ∧
      ∀ effect ∈ (writeBatches (consenterSupport R C) sp bts).2, InForce R C effect := by
  induction bts generalizing sp with
  | nil => simp [writeBatches]
  | cons batch _ ih =>
    have hrs := ih (sp.writeBlock batch) (fun env hm => hp env (by simp_all))
    refine ⟨hrs.1, hrs.2.1, ?_⟩
    intro effect hm
    simp only [writeBatches, mem_cons] at hm
    rcases hm with _ | htail
    · subst effect
      intro env he
      exact hp env (by simp [he])
    · exact hrs.2.2 effect htail

theorem orderWith_settled (hs : Settled R c) (bsz : BatchSize) {env : Envelope}
    (hp : processNormalMsg R c.support.bundle env = .ok (R.sequence c.support.bundle)) :
    Settled R (orderWith (consenterSupport R C) c bsz env).1 ∧
      ∀ effect ∈ (orderWith (consenterSupport R C) c bsz env).2, InForce R C effect := by
  have hord := hs.cutter.ordered_spec bsz env
  have ha : ∀ other ∈ c.cutter.pending ++ [env],
      processNormalMsg R c.support.bundle other = .ok (R.sequence c.support.bundle) := by
    intro other hm
    rcases mem_append.mp hm with hpend | hlast
    · exact hs.pending other hpend
    · rw [mem_singleton.mp hlast]
      exact hp
  rw [← hord.conserved] at ha
  obtain ⟨hb, hea, hf⟩ := writeBatches_inForce (C := C) c.support
    (fun other hm => ha other (mem_append_left _ hm))
  refine ⟨⟨hord.wellFormed, ?_, ?_, ?_⟩, hf⟩
  · simpa only [orderWith, hb] using hs.orderer
  · simpa only [orderWith, hb, hea] using hs.earlier
  · simp only [orderWith, hb]
    intro other hm
    exact ha other (mem_append_right _ hm)

theorem writeCut_inForce (hs : Settled R c) :
    let cut := writeCut (consenterSupport R C) c.support c.cutter.pendingBatch
    cut.1.bundle = c.support.bundle ∧ cut.1.earlier = c.support.earlier ∧
      ∀ effect ∈ cut.2, InForce R C effect := by
  have hpn := hs.pending
  dsimp only
  cases hbt : c.cutter.pendingBatch with
  | none => simp [writeCut]
  | some batch =>
    have hp : ∀ env ∈ batch,
        processNormalMsg R c.support.bundle env = .ok (R.sequence c.support.bundle) := by
      simpa [Receiver.pending, hbt] using hpn
    refine ⟨rfl, rfl, ?_⟩
    intro effect hm
    rw [writeCut, mem_singleton] at hm
    subst effect
    exact hp

theorem orderConfig_settled (hl : Lawful R C) (hs : Settled R c)
    (hbound : R.sequence c.support.bundle + 1 < 2 ^ 64)
    (ha : processConfigUpdateMsg R C c.support.bundle update = .ok (env, seq)) :
    ∃ next efs, orderConfig (consenterSupport R C) c env = some (next, efs) ∧
      Settled R next ∧ ∀ effect ∈ efs, InForce R C effect := by
  obtain ⟨_, hord⟩ := hs.orderer
  obtain ⟨applied, newConfig, hp, hsq, hn⟩ := configBlockBundle_of_accepted hl hord ha
  obtain ⟨hb, hea, hc⟩ := writeCut_inForce (C := C) hs
  have hq := (processConfigUpdateMsg_eq_ok ha).1
  set cut := writeCut (consenterSupport R C) c.support c.cutter.pendingBatch with hcutDef
  have hwt : cut.1.writeConfigBlock R C [env] =
      .ok { bundle := applied, earlier := cut.1.earlier ++ [cut.1.bundle],
            blocks := cut.1.blocks ++ [[env]] } := by
    unfold ChainSupport.writeConfigBlock
    rw [hb, hp]
    rfl
  have hor : orderConfig (consenterSupport R C) c env =
      some ({ support := { bundle := applied,
                           earlier := cut.1.earlier ++ [cut.1.bundle],
                           blocks := cut.1.blocks ++ [[env]] },
              cutter := c.cutter.cut.2, timer := false },
        cut.2 ++ [.wroteConfigBlock cut.1 [env]]) := by
    have hr : (consenterSupport R C).writeConfigBlock cut.1 [env] =
        cut.1.writeConfigBlock R C [env] := rfl
    unfold orderConfig
    simp only [Receiver.cut_batch, ← hcutDef, hr, hwt]
  refine ⟨_, _, hor, ⟨c.cutter.cut_wellFormed, ⟨newConfig, hn⟩, ?_, ?_⟩, ?_⟩
  · intro bundle hm
    simp only [hb, hea] at hm
    rw [hsq, uint64_of_lt hbound]
    rcases mem_append.mp hm with hold | hlast
    · exact Nat.lt_succ_of_lt (hs.earlier bundle hold)
    · rw [mem_singleton.mp hlast]
      exact Nat.lt_succ_self _
  · simp
  · intro effect hm
    rcases mem_append.mp hm with hfst | hlast
    · exact hc effect hfst
    · rw [mem_singleton.mp hlast]
      refine ⟨update, env, _, rfl, ?_, hwt⟩
      rw [hb, ← hq]
      exact ha

theorem expireTimer_settled (hs : Settled R c) :
    Settled R (expireTimer (consenterSupport R C) c).1 ∧
      ∀ effect ∈ (expireTimer (consenterSupport R C) c).2, InForce R C effect := by
  by_cases hn : c.cutter.pending = []
  · rw [expireTimer_of_pending_nil _ hn]
    refine ⟨⟨c.cutter.cut_wellFormed, hs.orderer, hs.earlier, ?_⟩, ?_⟩
    · simp
    · intro _ hm
      rw [mem_singleton.mp hm]
      trivial
  · rw [expireTimer_of_pending_ne_nil _ hn]
    refine ⟨⟨c.cutter.cut_wellFormed, hs.orderer, hs.earlier, ?_⟩, ?_⟩
    · simp
    · intro _ hm
      rw [mem_singleton.mp hm]
      exact hs.pending

theorem orderNormal_settled (hs : Settled R c)
    {env : Envelope} (hp : processNormalMsg R c.support.bundle env = .ok seq) :
    ∃ next efs, orderNormal (consenterSupport R C) c env = some (next, efs) ∧
      Settled R next ∧ ∀ effect ∈ efs, InForce R C effect := by
  obtain ⟨oc, hord⟩ := hs.orderer
  rw [processNormalMsg_sequence hp] at hp
  refine ⟨_, _, ?_, orderWith_settled hs oc.batchSize hp⟩
  simp [orderNormal, consenterSupport, ordererBatchSize, hord]

theorem mainStep_settled (hl : Lawful R C) (hs : Settled R c)
    (hbound : R.sequence c.support.bundle + 1 < 2 ^ 64) {ev : Event} (he : Entered R C c ev) :
    ∃ next efs, mainStep (consenterSupport R C) c ev = some (next, efs) ∧
      Settled R next ∧ ∀ effect ∈ efs, InForce R C effect := by
  obtain ⟨_, hord⟩ := hs.orderer
  cases ev with
  | timerExpired =>
    by_cases har : c.timer = true
    · refine ⟨_, _, ?_, expireTimer_settled hs⟩
      simp [mainStep, har]
    · exact ⟨c, [], by simp [mainStep, har], hs, by simp⟩
  | received msg =>
    rcases msg with ⟨configSeq, env | env⟩
    · obtain ⟨_, hm, hpc⟩ := he
      have hq := processNormalMsg_sequence hpc
      simp only [mainStep, receiveMessage]
      by_cases hsl : configSeq < (consenterSupport R C).sequence c.support
      · rw [if_pos hsl]
        have hn := processNormalMsg_noPanic hord env
        rcases hag : (consenterSupport R C).processNormalMsg c.support env with
          (text | text) | newSeq
        · exact ⟨c, [.discardedNormal env], rfl, hs, by simp [InForce]⟩
        · exact absurd hag (hn text)
        · exact orderNormal_settled hs hag
      · rw [if_neg hsl]
        rw [hq] at hsl
        rw [hs.eq_bundle_of_not_stale hm hsl] at hpc
        exact orderNormal_settled hs hpc
    · obtain ⟨_, hm, update, hpc⟩ := he
      have hq := (processConfigUpdateMsg_eq_ok hpc).1
      simp only [mainStep, receiveMessage]
      by_cases hsl : configSeq < (consenterSupport R C).sequence c.support
      · rw [if_pos hsl]
        have hrp := processConfigMsg_of_accepted hl hpc c.support.bundle
        have hn := processConfigUpdateMsg_noPanic hord C update
        rw [← hrp] at hn
        rcases hag : (consenterSupport R C).processConfigMsg c.support env with
          (text | text) | ⟨reprocessed, newSeq⟩
        · exact ⟨c, [.discardedConfig env], rfl, hs, by simp [InForce]⟩
        · exact absurd hag (hn text)
        · exact orderConfig_settled hl hs hbound (hrp.symm.trans hag)
      · rw [if_neg hsl]
        rw [hq] at hsl
        rw [hs.eq_bundle_of_not_stale hm hsl] at hpc
        exact orderConfig_settled hl hs hbound hpc

/-- A run whose messages enter with the sequence number of the configuration
that accepted them, none of which is the last, never panics, and every block it
writes agrees with the configuration in force at that moment. -/
theorem main_blocks_agree_with_configuration
    (R : Resources Bundle Config) (C : Codec Config) (hlawful : Lawful R C)
    (support : ChainSupport Bundle) (hresources : checkResources R support.bundle = .ok ())
    (hearlier : ∀ bundle ∈ support.earlier, R.sequence bundle < R.sequence support.bundle)
    (events : List Event)
    (hentered : EffectMachine.Fed (mainStep (consenterSupport R C))
      (fun chain event => Entered R C chain event ∧
        R.sequence chain.support.bundle + 1 < 2 ^ 64) (newChain support) events) :
    ∃ chain effects, main (consenterSupport R C) (newChain support) events = some (chain, effects) ∧
      (∀ state batch, Effect.wroteBlock state batch ∈ effects →
        ∀ env ∈ batch, processNormalMsg R state.bundle env = .ok (R.sequence state.bundle)) ∧
      (∀ state batch, Effect.wroteConfigBlock state batch ∈ effects →
        ∃ update env next, batch = [env] ∧
          processConfigUpdateMsg R C state.bundle update = .ok (env, R.sequence state.bundle) ∧
          state.writeConfigBlock R C batch = .ok next) := by
  have hsr : Settled R (newChain support) := by
    refine ⟨newReceiverImpl_wellFormed, checkResources_eq_ok hresources, hearlier, ?_⟩
    simp [newChain]
  obtain ⟨chain, effects, hrun, hgd⟩ :=
    EffectMachine.run_progress (Settled R) (InForce R C) (fun _ _ hset halw =>
        mainStep_settled hlawful hset halw.2 halw.1)
      hsr hentered
  refine ⟨chain, effects, hrun, ?_, ?_⟩
  · intro _ _ hmem
    exact hgd _ hmem
  · intro _ _ hmem
    exact hgd _ hmem

def numberedUpdate : Envelope where
  payload := [7]
  signature := []

/-- Configurations that are numbered up to 255, with the sequence number of the
first.  One update leads from each to the next. -/
def numberedFrom (first : ℕ) (rule : ℕ → Envelope → Except String Unit) : Resources ℕ Byte where
  channelID := "numbered"
  sequence bundle := uint64 (first + bundle)
  ordererConfig _ := some
    { batchSize := { maxMessageCount := 2, preferredMaxBytes := 10 },
      consensusTypeMigration := true, consensusState := .normal }
  ordererCapabilities _ := .ok ()
  channelCapabilities _ := .ok ()
  filters bundle := [rule bundle]
  inspect _ _ := .ok ()
  proposeConfigUpdate bundle configtx :=
    if configtx = numberedUpdate ∧ bundle < 255 then
      .ok { config := some (Fin.ofNat 256 (bundle + 1)),
            lastUpdate := some configtx }
    else .error "not the update"
  validate bundle configEnvelope :=
    if configEnvelope.config = some (Fin.ofNat 256 (bundle + 1)) ∧ bundle < 255 then .ok ()
    else .error "not the next configuration"
  createBundle _ config :=
    match config with
    | none => .error "nil config"
    | some number => .ok number.val
  validateNew _ _ := .ok ()

def numberedResources : Resources ℕ Byte :=
  numberedFrom 0 fun _ message =>
    if message.payload = [] then .error "Message was empty" else .ok ()

def numberedCodec : Codec Byte where
  unmarshalPayload bytes := .ok { header := some { channelHeader := some bytes }, data := bytes }
  unmarshalChannelHeader bytes :=
    .ok { type := if bytes.length = 2 then .endorserTransaction else .config,
          channelId := "numbered" }
  unmarshalConfigEnvelope data := .ok { config := data.head?, lastUpdate := some numberedUpdate }
  createSignedEnvelope _ channelId configEnvelope :=
    if channelId = "numbered" ∧ configEnvelope.lastUpdate = some numberedUpdate then
      .ok { payload := configEnvelope.config.toList, signature := [] }
    else .error "not encodable"

theorem numbered_lawful (first : ℕ) (rule : ℕ → Envelope → Except String Unit) :
    Lawful (numberedFrom first rule) numberedCodec where
  decode_signed := by
    rintro _ ⟨config, _⟩ env hsign
    simp only [numberedCodec] at hsign
    split_ifs at hsign with hnumbered
    obtain ⟨rfl, rfl⟩ := hnumbered
    rw [Except.ok.injEq] at hsign
    subst env
    refine ⟨_, _, rfl, rfl, ?_, ?_⟩ <;> cases config <;> rfl
  lastUpdate_proposed := by
    intro _ _ _ hpr
    simp only [numberedFrom] at hpr
    split_ifs at hpr
    rw [Except.ok.injEq] at hpr
    rw [← hpr]
  validate_proposed := by
    intro _ _ _ hpr
    simp only [numberedFrom] at hpr ⊢
    split_ifs at hpr with hu
    rw [Except.ok.injEq] at hpr
    rw [← hpr, if_pos ⟨rfl, hu.2⟩]
  sequence_applied := by
    rintro _ _ ⟨_, _⟩ hok hcreate
    simp only [numberedFrom] at hok hcreate ⊢
    split_ifs at hok with hnext
    obtain ⟨rfl, hlt⟩ := hnext
    simp only [Except.ok.injEq, Fin.val_ofNat] at hcreate
    rw [← hcreate, Nat.mod_eq_of_lt (Nat.succ_lt_succ hlt)]
    unfold uint64
    rw [Nat.mod_add_mod, Nat.add_assoc]

/-- A pending message, a config message and a message that became stale. -/
def numberedEvents : List Event :=
  [.received ⟨0, .normalMsg { payload := [1], signature := [] }⟩,
    .received ⟨0, .configMsg { payload := [1], signature := [] }⟩,
    .received ⟨0, .normalMsg { payload := [2], signature := [] }⟩,
    .timerExpired]

theorem numbered_blocks_agree :
    ∃ chain effects,
      main (consenterSupport numberedResources numberedCodec)
          (newChain ⟨0, [], []⟩) numberedEvents = some (chain, effects) ∧
      (∀ state batch, Effect.wroteBlock state batch ∈ effects →
        ∀ env ∈ batch, processNormalMsg numberedResources state.bundle env =
          .ok (numberedResources.sequence state.bundle)) ∧
      ∀ state batch, Effect.wroteConfigBlock state batch ∈ effects →
        ∃ update env next, batch = [env] ∧
          processConfigUpdateMsg numberedResources numberedCodec state.bundle update =
            .ok (env, numberedResources.sequence state.bundle) ∧
          state.writeConfigBlock numberedResources numberedCodec batch = .ok next := by
  refine main_blocks_agree_with_configuration numberedResources numberedCodec
    (numbered_lawful 0 _) ⟨0, [], []⟩ rfl (by simp) numberedEvents ?_
  exact .cons rfl ⟨⟨0, by simp [newChain], rfl⟩, by decide⟩
    (.cons rfl ⟨⟨0, by decide, numberedUpdate, rfl⟩, by decide⟩
      (.cons rfl ⟨⟨0, by decide, rfl⟩, by decide⟩ (.cons rfl ⟨trivial, by decide⟩ trivial)))

/-- The first configuration has the last sequence number, and only it accepts
the message. -/
def lastResources : Resources ℕ Byte :=
  numberedFrom (2 ^ 64 - 1) fun bundle message =>
    if message.payload = [2] ∧ bundle ≠ 0 then .error "refused" else .ok ()

def lastEvents : List Event :=
  [.received ⟨2 ^ 64 - 1, .configMsg { payload := [1], signature := [] }⟩,
    .received ⟨2 ^ 64 - 1, .normalMsg { payload := [2], signature := [] }⟩,
    .timerExpired]

/-- The sequence number of the next configuration is 0, so that the message is
not checked again. -/
theorem lastSequence_blocks_disagree :
    Lawful lastResources numberedCodec ∧ checkResources lastResources 0 = .ok () ∧
      EffectMachine.Fed (mainStep (consenterSupport lastResources numberedCodec))
        (Entered lastResources numberedCodec) (newChain ⟨0, [], []⟩) lastEvents ∧
      ∃ chain effects,
        main (consenterSupport lastResources numberedCodec) (newChain ⟨0, [], []⟩) lastEvents =
          some (chain, effects) ∧
        ∃ state, Effect.wroteBlock state [{ payload := [2], signature := [] }] ∈ effects ∧
          state.bundle = 1 ∧
          processNormalMsg lastResources 1 { payload := [2], signature := [] } =
            .error (.error "refused") := by
  refine ⟨numbered_lawful _ _, rfl, ?_, _, _, rfl, _, .tail _ (.head _), rfl, rfl⟩
  exact .cons rfl ⟨0, by decide, numberedUpdate, rfl⟩
    (.cons rfl ⟨0, by decide, rfl⟩ (.cons rfl trivial trivial))

end Multichannel

end FabricSequencer
