import FabricSequencer.BlockVerification

/-!
# The streams of the cluster service

A `Step` stream is authenticated by its first request, against the membership
of that moment.  Later messages are handled as long as the stream is listed as
authorized, and `ConfigureNodeCerts` takes streams off the list.  Each section
under the lock is one event, and so is the receipt of a message, which takes
none.

Certificates, signatures, ASN.1 and the binding of a TLS session are given.
-/

namespace FabricSequencer.Cluster

open List Function

open Deliverclient (withMessage withMessage_ok_iff)

structure NodeAuthRequest where
  version : ℤ
  timestamp : Bytes
  fromId : ℕ
  toId : ℕ
  channel : GoString
  sessionBinding : Bytes
  signature : Bytes

structure Consenter where
  id : ℕ
  identity : Bytes

structure Crypto where
  nodeIdentity : Bytes
  sanitizeX509Cert : Bytes → Except String Bytes
  /-- `GetTLSSessionBinding` for the hash of the request's fields -/
  tlsSessionBinding : ℕ → NodeAuthRequest → Except String Bytes
  /-- the digest of the ASN.1 encoding of `AuthRequestSignature` -/
  digest : NodeAuthRequest → Except String Bytes
  verifySignature : Bytes → Bytes → Bytes → Except String Unit

abbrev MemberMapping := ℕ → Option Bytes

/-- There is no mapping for a channel that has never been configured. -/
structure ChannelMembersConfig where
  memberMapping : Option MemberMapping
  nextStreamID : ℕ
  authorizedStreams : List (ℕ × ℕ)

variable (crypto : Crypto)

def verifyAuthRequest (stream : ℕ) (request : Option NodeAuthRequest)
    (membership : GoString → ChannelMembersConfig) :
    Except String NodeAuthRequest := do
  match request with
  | none => .error "invalid request object"
  | some authReq =>
    let tlsBinding ← withMessage "session binding read failed"
      (crypto.tlsSessionBinding stream authReq)
    if tlsBinding ≠ authReq.sessionBinding then
      .error "session binding mismatch"
    else
      let msg ← withMessage "ASN encoding failed" (crypto.digest authReq)
      match (membership authReq.channel).memberMapping with
      | none => .error ("channel " ++ printed authReq.channel ++ " not found in config")
      | some members =>
        match members authReq.fromId, members authReq.toId with
        | none, _ => .error ("node " ++ toString authReq.fromId ++
            " is not member of channel " ++ printed authReq.channel)
        | some _, none => .error ("node " ++ toString authReq.toId ++
            " is not member of channel " ++ printed authReq.channel)
        | some fromIdentity, some toIdentity =>
          if toIdentity ≠ crypto.nodeIdentity then
            .error "node id mismatch"
          else do
            withMessage "signature mismatch" (crypto.verifySignature
              fromIdentity msg authReq.signature)
            return authReq

/-- The loop of `ConfigureNodeCerts`, and whether it has come to its end. -/
def newMapping : List Consenter → MemberMapping → MemberMapping × Bool
  | [], members => (members, true)
  | node :: rest, members =>
    match crypto.sanitizeX509Cert node.identity with
    | .error _ => (members, false)
    | .ok sanitizedID => newMapping rest (Function.update members node.id (some sanitizedID))

/-- The mapping that a call leaves, and whether it has returned no error. -/
def configured (nodes : List Consenter) : MemberMapping × Bool :=
  newMapping crypto nodes fun _ => none

inductive Stage where
  | idle
  | reading (authReq : NodeAuthRequest) (streamID : ℕ)
  | received (authReq : NodeAuthRequest) (streamID : ℕ) (members : Option MemberMapping)

/-- A call of `OnSubmit` or `OnConsensus`, with the request that the stream was
authenticated by and the membership when its message was received. -/
structure Call where
  authReq : NodeAuthRequest
  members : Option MemberMapping

structure State where
  membershipByChannel : GoString → ChannelMembersConfig
  stage : ℕ → Stage
  calls : List Call

def State.initial : State := ⟨fun _ => ⟨none, 0, []⟩, fun _ => .idle, []⟩

inductive Event where
  | authenticate (stream : ℕ) (request : Option NodeAuthRequest)
  | receive (stream : ℕ)
  | handle (stream : ℕ) (isRequest : Bool)
  | close (stream : ℕ)
  | configure (channel : GoString) (nodes : List Consenter)

section

variable (state : State)

def State.setMembership (channel : GoString) (config : ChannelMembersConfig) : State :=
  { state with
    membershipByChannel := Function.update state.membershipByChannel channel config }

def State.setStage (stream : ℕ) (stage : Stage) : State :=
  { state with stage := Function.update state.stage stream stage }

def State.close (stream : ℕ) (authReq : NodeAuthRequest) (streamID : ℕ) : State :=
  let config := state.membershipByChannel authReq.channel
  (state.setMembership authReq.channel
    { config with
      authorizedStreams := config.authorizedStreams.filter (·.1 ≠ streamID) }).setStage stream .idle

def State.step : Event → State
  | .authenticate stream request =>
    match state.stage stream, verifyAuthRequest crypto stream request state.membershipByChannel with
    | .idle, .ok authReq =>
      let config := state.membershipByChannel authReq.channel
      let streamID := config.nextStreamID + 1
      (state.setMembership authReq.channel
        { config with
          nextStreamID := streamID
          authorizedStreams := (streamID, authReq.fromId) ::
            config.authorizedStreams }).setStage stream
        (.reading authReq streamID)
    | _, _ => state
  | .receive stream =>
    match state.stage stream with
    | .reading authReq streamID =>
      state.setStage stream (.received authReq streamID
        (state.membershipByChannel authReq.channel).memberMapping)
    | _ => state
  | .handle stream isRequest =>
    match state.stage stream with
    | .received authReq streamID members =>
      let authorized :=
        (state.membershipByChannel authReq.channel).authorizedStreams.any (·.1 = streamID)
      if authorized && isRequest then
        { state.setStage stream (.reading authReq streamID) with
          calls := ⟨authReq, members⟩ :: state.calls }
      else state.close stream authReq streamID
    | _ => state
  | .close stream =>
    match state.stage stream with
    | .reading authReq streamID => state.close stream authReq streamID
    | _ => state
  | .configure channel nodes =>
    let config := state.membershipByChannel channel
    let mapping := configured crypto nodes
    state.setMembership channel
      { config with
        memberMapping := some mapping.1
        authorizedStreams :=
          if mapping.2 then
            config.authorizedStreams.filter fun entry =>
              (mapping.1 entry.2).isSome
          else config.authorizedStreams }

end

def run (events : List Event) : State := events.foldl (State.step crypto) .initial

/-- The request is signed by the identity that the membership has for its
sender. -/
def SignedBy (members : Option MemberMapping) (authReq : NodeAuthRequest) : Prop :=
  ∃ identity msg, members.bind (· authReq.fromId) = some identity ∧
    crypto.digest authReq = .ok msg ∧
    crypto.verifySignature identity msg authReq.signature = .ok ()

variable (allowed : GoString → List Consenter → Prop)

def Accepted (authReq : NodeAuthRequest) : Prop :=
  ∃ nodes stream, allowed authReq.channel nodes ∧
    verifyAuthRequest crypto stream (some authReq)
      (fun _ => ⟨some (configured crypto nodes).1, 0, []⟩) = .ok authReq

/-- Whatever request one call lets in, another one keeps its signature valid or
removes its sender. -/
def Stable : Prop :=
  ∀ authReq nodes, Accepted crypto allowed authReq → allowed authReq.channel nodes →
    SignedBy crypto (some (configured crypto nodes).1) authReq ∨
      (configured crypto nodes).2 = true ∧ (configured crypto nodes).1 authReq.fromId = none

def OnlyAllowed (events : List Event) : Prop :=
  ∀ channel nodes, .configure channel nodes ∈ events → allowed channel nodes

theorem verifyAuthRequest_ok_iff {stream : ℕ} {rq : Option NodeAuthRequest}
    {mbs : GoString → ChannelMembersConfig} {authReq : NodeAuthRequest} :
    verifyAuthRequest crypto stream rq mbs = .ok authReq ↔ rq = some authReq ∧
      crypto.tlsSessionBinding stream authReq = .ok authReq.sessionBinding ∧
      ∃ mapping, (mbs authReq.channel).memberMapping = some mapping ∧
        mapping authReq.toId = some crypto.nodeIdentity ∧
        SignedBy crypto (some mapping) authReq := by
  constructor
  · intro hv
    cases rq with
    | none => cases hv
    | some sent =>
      obtain ⟨binding, hb, hv⟩ := of_bind hv
      rw [withMessage_ok_iff] at hb
      by_cases hmi : binding ≠ sent.sessionBinding
      · rw [if_pos hmi] at hv
        cases hv
      rw [if_neg hmi] at hv
      obtain ⟨msg, hm, hv⟩ := of_bind hv
      rw [withMessage_ok_iff] at hm
      cases hms : (mbs sent.channel).memberMapping with
      | none => simp [hms] at hv
      | some members =>
        cases hfr : members sent.fromId with
        | none => simp [hms, hfr] at hv
        | some fromIdentity =>
          cases hto : members sent.toId with
          | none => simp [hms, hfr, hto] at hv
          | some toIdentity =>
            simp only [hms, hfr, hto] at hv
            by_cases hnd : toIdentity ≠ crypto.nodeIdentity
            · rw [if_pos hnd] at hv
              cases hv
            rw [if_neg hnd] at hv
            obtain ⟨_, hs, hsn⟩ := of_bind hv
            cases hsn
            refine ⟨rfl, ?_, members, hms, ?_, fromIdentity, msg, hfr, hm, withMessage_ok_iff.mp hs⟩
            · rw [hb, not_not.mp hmi]
            · rw [hto, not_not.mp hnd]
  · rintro ⟨rfl, hb, _, hms, hto, _, _, hfr, hm, hs⟩
    rw [Option.bind_some] at hfr
    simp [verifyAuthRequest, hb, hms, hto, hfr, hm, hs,
      withMessage, Except.mapError, bind, Except.bind, pure, Except.pure]

open State

section Runs

variable (allowed : GoString → List Consenter → Prop)

/-- While an authenticated stream is listed, the membership has its sender as
the signer of its request. -/
structure Held (config : ChannelMembersConfig) (authReq : NodeAuthRequest)
    (streamID : ℕ) : Prop where
  accepted : Accepted crypto allowed authReq
  id_le : streamID ≤ config.nextStreamID
  listed : ∀ node, (streamID, node) ∈ config.authorizedStreams →
    node = authReq.fromId ∧ SignedBy crypto config.memberMapping authReq

def Stage.Authentic (configs : GoString → ChannelMembersConfig) : Stage → Prop
  | .idle => True
  | .reading authReq streamID => Held crypto allowed (configs authReq.channel) authReq streamID
  | .received authReq streamID members =>
    Held crypto allowed (configs authReq.channel) authReq streamID ∧
      ∀ node, (streamID, node) ∈ (configs authReq.channel).authorizedStreams →
        SignedBy crypto members authReq

structure ConfigSound (channel : GoString) (config : ChannelMembersConfig) : Prop where
  mapping : ∀ mapping, config.memberMapping = some mapping →
    ∃ nodes, allowed channel nodes ∧ mapping = (configured crypto nodes).1
  id_le : ∀ entry ∈ config.authorizedStreams, entry.1 ≤ config.nextStreamID

structure Authentic (state : State) : Prop where
  configs : ∀ channel, ConfigSound crypto allowed channel (state.membershipByChannel channel)
  stages : ∀ stream, (state.stage stream).Authentic crypto allowed state.membershipByChannel
  calls : ∀ call ∈ state.calls, SignedBy crypto call.members call.authReq

/-- A change of one channel's record that lists no old stream anew, and keeps
those on the list whose requests remain signed. -/
structure Evolves (channel : GoString) (config next : ChannelMembersConfig) : Prop where
  id_le : config.nextStreamID ≤ next.nextStreamID
  listed : ∀ streamID node, streamID ≤ config.nextStreamID →
    (streamID, node) ∈ next.authorizedStreams →
    (streamID, node) ∈ config.authorizedStreams
  signed : ∀ authReq streamID, authReq.channel = channel → Accepted crypto allowed authReq →
    (streamID, authReq.fromId) ∈ next.authorizedStreams →
    SignedBy crypto config.memberMapping authReq →
    SignedBy crypto next.memberMapping authReq

variable {crypto allowed} {s : State} {config next : ChannelMembersConfig}
variable {channel : GoString} {authReq : NodeAuthRequest} {stream streamID : ℕ}

theorem Held.evolve (hhl : Held crypto allowed config authReq streamID)
    (hv : Evolves crypto allowed authReq.channel config next) :
    Held crypto allowed next authReq streamID where
  accepted := hhl.accepted
  id_le := hhl.id_le.trans hv.id_le
  listed node hmem := by
    obtain ⟨rfl, hsg⟩ := hhl.listed node (hv.listed _ _ hhl.id_le hmem)
    exact ⟨rfl, hv.signed _ _ rfl hhl.accepted hmem hsg⟩

theorem Stage.Authentic.evolve {stage : Stage}
    {configs : GoString → ChannelMembersConfig} (hst : stage.Authentic crypto allowed configs)
    (hv : Evolves crypto allowed channel (configs channel) next) :
    stage.Authentic crypto allowed (Function.update configs channel next) := by
  cases stage with
  | idle => trivial
  | reading authReq =>
    by_cases hc : authReq.channel = channel
    · subst hc
      simpa [Stage.Authentic] using Held.evolve hst hv
    · simpa [Stage.Authentic, hc] using hst
  | received authReq =>
    by_cases hc : authReq.channel = channel
    · subst hc
      obtain ⟨hhl, hsg⟩ := hst
      simp only [Stage.Authentic, update_self]
      exact ⟨hhl.evolve hv, fun node hm =>
        hsg node (hv.listed _ _ hhl.id_le hm)⟩
    · simpa [Stage.Authentic, hc] using hst

section Step

variable (hs : Authentic crypto allowed s)

include hs

theorem Authentic.setMembership
    (hv : Evolves crypto allowed channel (s.membershipByChannel channel) next)
    (hsn : ConfigSound crypto allowed channel next) :
    Authentic crypto allowed (s.setMembership channel next) where
  configs other := by
    by_cases ho : other = channel
    · subst ho
      simpa [State.setMembership] using hsn
    · simpa [State.setMembership, ho] using hs.configs other
  stages stream := (hs.stages stream).evolve hv
  calls := hs.calls

theorem Authentic.setStage {stage : Stage}
    (hst : stage.Authentic crypto allowed s.membershipByChannel) :
    Authentic crypto allowed (s.setStage stream stage) where
  configs := hs.configs
  stages other := by
    by_cases ho : other = stream
    · subst ho
      simpa [State.setStage] using hst
    · simpa [State.setStage, ho] using hs.stages other
  calls := hs.calls

theorem Authentic.close : Authentic crypto allowed (s.close stream authReq streamID) := by
  have hsn := hs.configs authReq.channel
  refine Authentic.setStage (hs.setMembership ?_ ?_) trivial
  · exact ⟨le_rfl, fun _ _ _ hm => mem_of_mem_filter hm, fun _ _ _ _ _ hsg => hsg⟩
  · exact ⟨hsn.mapping, fun e hm =>
      hsn.id_le e (mem_of_mem_filter hm)⟩

theorem Authentic.authenticate (stream : ℕ) (rq : Option NodeAuthRequest) :
    Authentic crypto allowed (s.step crypto (.authenticate stream rq)) := by
  simp only [State.step]
  split
  case h_2 => exact hs
  case h_1 authReq _ hver =>
  have hsn := hs.configs authReq.channel
  obtain ⟨rfl, hb, mapping, hp, hto, hsg⟩ := (verifyAuthRequest_ok_iff crypto).mp hver
  obtain ⟨nodes, hl, rfl⟩ := hsn.mapping mapping hp
  have ha : Accepted crypto allowed authReq :=
    ⟨nodes, stream, hl, (verifyAuthRequest_ok_iff crypto).mpr ⟨rfl, hb, _, rfl, hto, hsg⟩⟩
  refine Authentic.setStage (hs.setMembership ?_ ?_) ?_
  · refine ⟨Nat.le_succ _, ?_, fun _ _ _ _ _ hsg => hsg⟩
    intro _ _ _ hm
    -- the identifier of the new stream has not been given out before
    rcases mem_cons.mp hm with hn | hold
    · simp only [Prod.mk.injEq] at hn
      omega
    · exact hold
  · exact ⟨hsn.mapping, forall_mem_cons.mpr ⟨le_rfl, fun e hm =>
      (hsn.id_le e hm).trans (Nat.le_succ _)⟩⟩
  · simp only [Stage.Authentic, State.setMembership, update_self]
    refine ⟨ha, le_rfl, fun node hm => ?_⟩
    rcases mem_cons.mp hm with hn | hold
    · exact ⟨(Prod.mk.inj hn).2, hp ▸ hsg⟩
    · exact absurd (hsn.id_le _ hold) (Nat.not_succ_le_self _)

theorem Authentic.receive (stream : ℕ) :
    Authentic crypto allowed (s.step crypto (.receive stream)) := by
  have hst := hs.stages stream
  cases hat : s.stage stream with
  | reading =>
    simp only [State.step, hat]
    rw [hat] at hst
    exact hs.setStage ⟨hst, fun node hm => (hst.listed node hm).2⟩
  | _ => simpa only [State.step, hat] using hs

theorem Authentic.handle (stream : ℕ) (isRequest : Bool) :
    Authentic crypto allowed (s.step crypto (.handle stream isRequest)) := by
  have hst := hs.stages stream
  cases hat : s.stage stream with
  | received authReq streamID =>
    simp only [State.step, hat]
    rw [hat] at hst
    obtain ⟨hhl, hsg⟩ := hst
    split
    case isFalse => exact hs.close
    case isTrue hauthorized =>
    obtain ⟨⟨id, node⟩, hm, hid⟩ := any_eq_true.mp (Bool.and_eq_true_iff.mp hauthorized).1
    obtain rfl : id = streamID := of_decide_eq_true hid
    have hnx : Authentic crypto allowed (s.setStage stream (.reading authReq id)) := hs.setStage hhl
    exact ⟨hnx.configs, hnx.stages, forall_mem_cons.mpr ⟨hsg node hm, hs.calls⟩⟩
  | _ => simpa only [State.step, hat] using hs

theorem Authentic.configure (ht : Stable crypto allowed) {nodes : List Consenter}
    (hl : allowed channel nodes) :
    Authentic crypto allowed (s.step crypto (.configure channel nodes)) := by
  have hkp : ∀ e, e ∈ (if (configured crypto nodes).2 then
      (s.membershipByChannel channel).authorizedStreams.filter fun e =>
        ((configured crypto nodes).1 e.2).isSome
      else (s.membershipByChannel channel).authorizedStreams) →
      e ∈ (s.membershipByChannel channel).authorizedStreams := by
    intro _ hm
    split at hm
    · exact mem_of_mem_filter hm
    · exact hm
  simp only [State.step]
  refine hs.setMembership ⟨le_rfl, fun _ _ _ hm => hkp _ hm, ?_⟩
    ⟨?_, fun e hm => (hs.configs channel).id_le _ (hkp _ hm)⟩
  · rintro authReq streamID rfl hacc hm -
    rcases ht authReq nodes hacc hl with hsign | ⟨hdo, hno⟩
    · exact hsign
    · rw [if_pos hdo] at hm
      have hb := (mem_filter.mp hm).2
      simp [hno] at hb
  · rintro mapping hp
    exact ⟨nodes, hl, (Option.some.inj hp).symm⟩

end Step

theorem run_authentic (ht : Stable crypto allowed) {evs : List Event}
    (hv : OnlyAllowed allowed evs) : Authentic crypto allowed (run crypto evs) := by
  induction evs using List.reverseRecOn with
  | nil => exact ⟨fun _ => ⟨by simp [run, initial], by simp [run, initial]⟩, fun _ => trivial,
      by simp [run, initial]⟩
  | append_singleton evs ev ih =>
    have hs := ih fun channel nodes hm =>
      hv channel nodes (mem_append_left _ hm)
    rw [run, foldl_concat]
    change Authentic crypto allowed ((run crypto evs).step crypto ev)
    cases ev with
    | authenticate stream rq => exact hs.authenticate stream rq
    | receive stream => exact hs.receive stream
    | handle stream isRequest => exact hs.handle stream isRequest
    | close =>
      simp only [State.step]
      split
      · exact hs.close
      · exact hs
    | configure channel nodes => exact hs.configure ht (hv channel nodes (by simp))

end Runs

/-- An authenticated stream, a change of the membership that does not take it
off the list, and a message. -/
def replacedRun (before after : List Consenter) (stream : ℕ)
    (authReq : NodeAuthRequest) : List Event :=
  [.configure authReq.channel before, .authenticate stream (some authReq),
    .configure authReq.channel after, .receive stream, .handle stream true]

theorem replacedRun_calls {pre post : List Consenter} {stream : ℕ} {authReq : NodeAuthRequest}
    (hv : verifyAuthRequest crypto stream (some authReq)
      (fun _ => ⟨some (configured crypto pre).1, 0, []⟩) = .ok authReq)
    (hkp : (configured crypto post).2 = true → (configured crypto post).1 authReq.fromId ≠ none) :
    (run crypto (replacedRun pre post stream authReq)).calls =
      [⟨authReq, some (configured crypto post).1⟩] := by
  have hat : verifyAuthRequest crypto stream (some authReq)
      (Function.update initial.membershipByChannel authReq.channel
        ⟨some (configured crypto pre).1, 0, []⟩) = .ok authReq := by
    rw [verifyAuthRequest_ok_iff] at hv ⊢
    simpa using hv
  unfold initial at hat
  cases hdo : (configured crypto post).2 with
  | false => simp [run, replacedRun, State.step, initial, setMembership, setStage, hat, hdo]
  | true => simp [run, replacedRun, State.step, initial, setMembership, setStage, hat, hdo,
      Option.isSome_iff_ne_none.mpr (hkp hdo)]

theorem calls_signed_iff :
    (∀ events, OnlyAllowed allowed events →
      ∀ call ∈ (run crypto events).calls, SignedBy crypto call.members call.authReq) ↔
      Stable crypto allowed := by
  constructor
  · rintro hcalls authReq after ⟨pre, stream, hpre, hver⟩ hafter
    by_contra! hfails
    have hevn : OnlyAllowed allowed (replacedRun pre after stream authReq) := by
      intro _ _ hmem
      simp only [replacedRun, mem_cons, Event.configure.injEq, reduceCtorEq,
        not_mem_nil, or_false, false_or] at hmem
      rcases hmem with ⟨rfl, rfl⟩ | ⟨rfl, rfl⟩
      · exact hpre
      · exact hafter
    have hrun := replacedRun_calls crypto hver hfails.2
    exact hfails.1 (hcalls _ hevn _ (hrun ▸ mem_singleton_self _))
  · intro hstb _ hevn
    exact (run_authentic hstb hevn).calls

/-- A certificate stands for itself, and a signature is the certificate it
verifies under. -/
def transparentCrypto : Crypto where
  nodeIdentity := [2]
  sanitizeX509Cert := .ok
  tlsSessionBinding _ _ := .ok []
  digest _ := .ok []
  verifySignature identity _ signature :=
    if identity = signature then .ok () else .error "signature invalid"

/-- The first consenter gets a new certificate and keeps its identifier. -/
theorem replaced_identity_called :
    ¬ ∀ events, ∀ call ∈ (run transparentCrypto events).calls,
      SignedBy transparentCrypto call.members call.authReq := by
  intro hcl
  have hsg := hcl
    (replacedRun [⟨1, [1]⟩, ⟨2, [2]⟩] [⟨1, [3]⟩, ⟨2, [2]⟩] 0
      ⟨1, [], 1, 2, [], [], [1]⟩) _ (mem_of_head? rfl)
  obtain ⟨identity, _, hmbr, -, hver⟩ := hsg
  obtain rfl : identity = [3] := Option.some.inj (hmbr.symm.trans (by decide))
  revert hver
  simp [transparentCrypto]

end FabricSequencer.Cluster
