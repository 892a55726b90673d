import FabricSequencer.BlockDelivery
import FabricSequencer.ListHistory

/-!
# The chain of delivered blocks

While the receivers do not overlap and no step of `processMsg` after
`HandleBlock` fails, the blocks given to `HandleBlock` form a chain: each
carries the number and the hash that the one before it asks for, the hash of
its own data, and signatures that the latest configuration block accepts.
-/

namespace FabricSequencer.Deliverclient

open Protoutil ListHistory
open Blockwriter (BlockHeader)

variable {Config : Type} (codec : VerifierCodec Config) (origin : BlockVerificationAssistant)

variable (before : List Block)

def lastHash : Bytes :=
  match before.getLast?.bind Block.header with
  | none => origin.lastBlockHeaderHash
  | some header => blockHeaderHash codec header

def LatestVerifier (verifierFunc : BlockVerifierFunc) : Prop :=
  match (before.filter isConfigBlock).getLast? with
  | none => verifierFunc = origin.sigVerifierFunc
  | some configBlock => verifierFromBlock codec origin.channelID configBlock = .ok verifierFunc

structure Continues (block : Block) (header : BlockHeader) : Prop where
  header_eq : block.header = some header
  number : header.number = uint64 (origin.lastBlockNumber + 1 + before.length)
  previousHash : header.previousHash = lastHash codec origin before
  dataHash : blockDataHash codec.hash block.data = .ok header.dataHash
  signed : ∃ metadata verifierFunc, block.metadata = some metadata ∧
    LatestVerifier codec origin before verifierFunc ∧
    verifierFunc header metadata = .ok ()

def AuthenticatedChain (blocks : List Block) : Prop :=
  ForallWithPast (fun before block => ∃ header, Continues codec origin before block header) blocks

structure StandsAfter (verifier : BlockVerificationAssistant) : Prop where
  channelID : verifier.channelID = origin.channelID
  number : uint64 (verifier.lastBlockNumber + 1) =
    uint64 (origin.lastBlockNumber + 1 + before.length)
  hash : verifier.lastBlockHeaderHash = lastHash codec origin before
  latest : LatestVerifier codec origin before verifier.sigVerifierFunc

theorem standsAfter_nil : StandsAfter codec origin [] origin :=
  ⟨rfl, rfl, rfl, rfl⟩

variable {codec} {origin verifier : BlockVerificationAssistant} {before : List Block}
  {header hdr : BlockHeader} {b : Block}

theorem StandsAfter.continues (hs : StandsAfter codec origin before verifier)
    (hh : b.header = some hdr) (ha : verifier.Accepts codec hdr b) :
    Continues codec origin before b hdr where
  header_eq := hh
  number := ha.number.trans hs.number
  previousHash := ha.previousHash.trans hs.hash
  dataHash := ha.dataHash
  signed := by
    obtain ⟨md, hmt, -, hsg⟩ := ha.signed
    exact ⟨md, verifier.sigVerifierFunc, hmt, hs.latest, hsg⟩

variable {origin : BlockVerificationAssistant}

theorem uint64_number_succ (hb : Continues codec origin before b hdr) :
    uint64 (hdr.number + 1) = uint64 (origin.lastBlockNumber + 1 + (before ++ [b]).length) := by
  rw [hb.number, List.length_append]
  simp only [uint64, List.length_singleton, Nat.mod_add_mod]
  rw [Nat.add_assoc]

theorem lastHash_concat (hh : b.header = some hdr) :
    lastHash codec origin (before ++ [b]) = blockHeaderHash codec hdr := by
  simp [lastHash, hh]

theorem StandsAfter.plain (hs : StandsAfter codec origin before verifier)
    (hb : Continues codec origin before b hdr) (hc : isConfigBlock b = false) :
    StandsAfter codec origin (before ++ [b]) (verifier.updateBlockHeader codec hdr) where
  channelID := hs.channelID
  number := uint64_number_succ hb
  hash := (lastHash_concat hb.header_eq).symm
  latest := by
    have hf : (before ++ [b]).filter isConfigBlock = before.filter isConfigBlock := by
      simp [hc]
    unfold LatestVerifier
    rw [hf]
    exact hs.latest

theorem StandsAfter.config
    {verifierFunc : BlockVerifierFunc} (hs : StandsAfter codec origin before verifier)
    (hb : Continues codec origin before b hdr) (hc : isConfigBlock b = true)
    (hbl : verifierFromBlock codec verifier.channelID b = .ok verifierFunc) :
    StandsAfter codec origin (before ++ [b])
      { verifier.updateBlockHeader codec hdr with
        sigVerifierFunc := verifierFunc } where
  channelID := hs.channelID
  number := uint64_number_succ hb
  hash := (lastHash_concat hb.header_eq).symm
  latest := by
    have hla : ((before ++ [b]).filter isConfigBlock).getLast? = some b := by
      simp [hc]
    unfold LatestVerifier
    rw [hla, ← hs.channelID]
    exact hbl

/-! ## Undisturbed runs -/

namespace Deliverer

variable (codec) in
/-- A response is taken only while no receiver is inside `processMsg`, and what
follows a handled block returns no error. -/
def Undisturbed (d : Deliverer) : Event → Prop
  | .response _ _ => d.Quiet
  | .handled receiver result => ∀ header block,
      d.stageOf receiver = .handling header block →
        result = .ok () ∧ ∃ after, d.applyConfig codec receiver header block = .ok after
  | _ => True

variable (codec) in
def RunsUndisturbed : Deliverer → List Event → Prop := RunsWith codec (Undisturbed codec)

variable (codec) in
def Explains (origin : BlockVerificationAssistant) (d : Deliverer) : Stage → Prop
  | .ended _ | .receiving => True
  | .verified header block => ∃ verifier,
      StandsAfter codec origin d.handled verifier ∧ Continues codec origin d.handled block header ∧
        d.verifier = verifier.updateBlockHeader codec header
  | .handling header block => ∃ before verifier,
      d.handled = before ++ [block] ∧ StandsAfter codec origin before verifier ∧
        Continues codec origin before block header ∧
        d.verifier = verifier.updateBlockHeader codec header
  | .configured header =>
    StandsAfter codec origin d.handled d.verifier ∧
      d.verifier.updateBlockHeader codec header = d.verifier
  | .updated _ => StandsAfter codec origin d.handled d.verifier

variable (codec) in
structure Follows (origin : BlockVerificationAssistant) (d : Deliverer) : Prop where
  chain : AuthenticatedChain codec origin d.handled
  single : ∀ first second, (d.stageOf first).Busy → (d.stageOf second).Busy → first = second
  call : ∀ receiver, d.Explains codec origin (d.stageOf receiver)
  quiet : d.Quiet → StandsAfter codec origin d.handled d.verifier

variable {origin : BlockVerificationAssistant} {d : Deliverer} {stage : Stage}

theorem explains_of_not_busy (hid : ¬ stage.Busy) : d.Explains codec origin stage := by
  cases stage <;> first | trivial | exact absurd trivial hid

variable {r : ℕ}

theorem Follows.of_setStage (hos : ∀ other, other ≠ r → ¬ (d.stageOf other).Busy)
    (hch : AuthenticatedChain codec origin d.handled) (hca : d.Explains codec origin stage)
    (hqt : ¬ stage.Busy → StandsAfter codec origin d.handled d.verifier) :
    Follows codec origin (d.setStage r stage) := by
  constructor
  · exact hch
  · intro first second hfirst hsecond
    rw [busy_setStage d hos hfirst, busy_setStage d hos hsecond]
  · intro other
    by_cases heq : other = r
    · subst heq
      rw [stageOf_setStage_same]
      exact hca
    · rw [stageOf_setStage_of_ne d stage heq]
      exact explains_of_not_busy (hos other heq)
  · intro ha
    apply hqt
    have hrc := ha r
    rwa [stageOf_setStage_same] at hrc

variable {header hdr : BlockHeader} {b : Block} (hfol : Follows codec origin d)

include hfol

theorem Follows.at_stage (hst : d.stageOf r = stage) (hbs : stage.Busy) :
    d.Explains codec origin stage ∧ ∀ other, other ≠ r → ¬ (d.stageOf other).Busy := by
  subst hst
  exact ⟨hfol.call r, fun other hne ho =>
    hne (hfol.single other r ho hbs)⟩

theorem Follows.verify (hqt : d.Quiet) (hh : b.header = some hdr)
    (ha : d.verifier.Accepts codec hdr b) :
    Follows codec origin
      ({ d with verifier := d.verifier.updateBlockHeader codec hdr }.setStage r
        (.verified hdr b)) := by
  have hs := hfol.quiet hqt
  apply Follows.of_setStage
  · intro other _
    exact hqt other
  · exact hfol.chain
  · exact ⟨d.verifier, hs, hs.continues hh ha, rfl⟩
  · intro hid
    exact absurd trivial hid

theorem Follows.handle (hst : d.stageOf r = .verified hdr b) :
    Follows codec origin ({ d with handled := d.handled ++ [b] }.setStage r (.handling hdr b)) := by
  obtain ⟨⟨verifier, hs, hb, hv⟩, hoths⟩ := hfol.at_stage hst trivial
  apply Follows.of_setStage
  · exact hoths
  · exact forallWithPast_concat_iff.mpr ⟨hfol.chain, hdr, hb⟩
  · exact ⟨d.handled, verifier, rfl, hs, hb, hv⟩
  · intro hid
    exact absurd trivial hid

theorem Follows.configure {post : Deliverer} (hst : d.stageOf r = .handling hdr b)
    (hap : d.applyConfig codec r hdr b = .ok post) :
    Follows codec origin (post.setStage r (.configured hdr)) := by
  obtain ⟨⟨_, _, hh, hs, hb, hv⟩, hoths⟩ := hfol.at_stage hst trivial
  rcases applyConfig_eq_ok codec hap with ⟨hc, rfl⟩ | ⟨hc, verifierFunc, hbl, rfl⟩
  · apply Follows.of_setStage hoths hfol.chain
    · refine ⟨?_, ?_⟩
      · rw [hh, hv]
        exact hs.plain hb hc
      · rw [hv]
        rfl
    · intro hid
      exact absurd trivial hid
  rw [hv] at hbl
  apply Follows.of_setStage
  · exact hoths
  · exact hfol.chain
  · refine ⟨?_, rfl⟩
    have haf := hs.config hb hc hbl
    rw [← hh] at haf
    rw [hv]
    exact haf
  · intro hid
    exact absurd trivial hid

theorem Follows.update (hst : d.stageOf r = .configured hdr) :
    Follows codec origin
      ({ d with verifier := d.verifier.updateBlockHeader codec hdr }.setStage r
        (.updated hdr)) := by
  obtain ⟨hca, hos⟩ := hfol.at_stage hst trivial
  apply Follows.of_setStage
  · exact hos
  · exact hfol.chain
  · rw [hca.2]
    exact hca.1
  · intro hid
    exact absurd trivial hid

theorem Follows.succeed (hst : d.stageOf r = .updated hdr) :
    Follows codec origin ({ d with
        nextBlockNumber := uint64 (hdr.number + 1)
        failed := 0 }.setStage r .receiving) := by
  obtain ⟨hca, hos⟩ := hfol.at_stage hst trivial
  apply Follows.of_setStage
  · exact hos
  · exact hfol.chain
  · trivial
  · intro _
    exact hca

theorem Follows.move {after : Deliverer} {ev : Event}
    (hun : d.Undisturbed codec ev) (hmv : Move codec d ev after) :
    Follows codec origin after := by
  cases hmv with
  | outside _ after hv _ hn _ ht =>
    have hex : ∀ stage, d.Explains codec origin stage → after.Explains codec origin stage := by
      intro _ hst
      unfold Explains at hst ⊢
      rwa [hn, hv]
    constructor
    · rw [hn]
      exact hfol.chain
    · intro first second hfirst hsecond
      apply hfol.single
      · rwa [← stageOf_eq_of_busy ht hfirst]
      · rwa [← stageOf_eq_of_busy ht hsecond]
    · intro r
      rcases ht r with heq | ⟨-, hid⟩
      · rw [heq]
        exact hex _ (hfol.call r)
      · exact explains_of_not_busy hid
    intro hqt
    rw [hn, hv]
    exact hfol.quiet (quiet_of_outside ht hqt)
  | verify _ _ _ hh ha =>
    exact hfol.verify hun hh ha
  | handle _ _ _ hst => exact hfol.handle hst
  | fail _ _ hdr b _ hst hfl =>
    exact absurd (hun hdr b hst) hfl
  | configure _ _ _ _ _ hst hap =>
    exact hfol.configure hst hap
  | update _ _ hst => exact hfol.update hst
  | succeed _ _ hst => exact hfol.succeed hst

theorem Follows.run {evs : List Event} (hrn : RunsUndisturbed codec d evs) :
    Follows codec origin (d.run codec evs) := by
  induction evs generalizing d with
  | nil => exact hfol
  | cons ev _ ih => exact ih (hfol.move hrn.1 (step_move codec d ev)) hrn.2

omit hfol

variable (codec) in
theorem follows_start (origin : BlockVerificationAssistant) :
    Follows codec origin (start origin) where
  chain := forallWithPast_nil _
  single := by
    intro _ _ hf
    exact hf.elim
  call := fun _ => trivial
  quiet := fun _ => standsAfter_nil codec origin

variable (codec) in
/-- Whatever the orderers answer, the blocks handed over in an undisturbed run
form an authenticated chain from the last block of the ledger. -/
theorem handled_authenticatedChain (origin : BlockVerificationAssistant) (events : List Event)
    (hruns : RunsUndisturbed codec (start origin) events) :
    AuthenticatedChain codec origin ((start origin).run codec events).handled :=
  ((follows_start codec origin).run hruns).chain

def receiverOf : Event → ℕ
  | .fetch receiver _ | .stop receiver _ | .response receiver _ | .handleBlock receiver
  | .handled receiver _ | .updateBlockHeader receiver | .onBlockProcessingSuccess receiver =>
    receiver

theorem stageOf_step_of_ne (d : Deliverer) {other : ℕ} {event : Event}
    (hne : other ≠ receiverOf event) : (d.step codec event).stageOf other = d.stageOf other := by
  have hset : ∀ (d : Deliverer) (stage : Stage),
      (d.setStage (receiverOf event) stage).stageOf other = d.stageOf other :=
    fun d stage => stageOf_setStage_of_ne d stage hne
  unfold step
  split_ifs
  · rfl
  cases event with
  | fetch receiver source =>
    simp only [advance]
    split
    · exact congrArg Receiver.stage (Function.update_of_ne hne _ _)
    · rfl
  | handled receiver result =>
    simp only [advance]
    split
    next header block _ =>
      cases withMessage _ result with
      | error => exact hset _ _
      | ok =>
        cases happly : d.applyConfig codec receiver header block with
        | error => exact hset _ _
        | ok =>
          rcases applyConfig_eq_ok codec happly with ⟨-, rfl⟩ | ⟨-, _, -, rfl⟩ <;> exact hset _ _
    · rfl
  | _ =>
    simp only [advance, receive]
    repeat' split
    all_goals first | rfl | exact hset _ _

theorem stageOf_run_of_ne {d : Deliverer} {other : ℕ} {events : List Event}
    (hne : ∀ event ∈ events, other ≠ receiverOf event) :
    (d.run codec events).stageOf other = d.stageOf other := by
  induction events generalizing d with
  | nil => rfl
  | cons event _ ih =>
    obtain ⟨hevent, hrest⟩ := List.forall_mem_cons.mp hne
    exact (ih hrest).trans (stageOf_step_of_ne d hevent)

/-- A channel whose configurations ask for a first entry in the metadata. -/
def signedCodec : VerifierCodec Unit :=
  { plainCodec with
    unmarshalConfigEnvelope := fun _ => .ok ()
    verifierFromConfig := fun _ _ => .ok fun _ metadata =>
      if metadata.head? = some [1] then .ok () else .error "implicit policy evaluation failed" }

/-- The envelope has a channel header of the type `CONFIG` for `mychannel`. -/
def configBlock : Block :=
  { plainBlock 5 with
    data := [[10, 17, 10, 15, 10, 13, 8, 1, 34, 9] ++ ascii "mychannel" ++ [18, 1, 1]] }

def signedBlock : Block := { plainBlock 6 with metadata := some [[1], [], [], [], []] }

/-- After a configuration block the deliverer turns to another orderer. -/
def switched : List Event :=
  [.fetch 0 "first", .response 0 (.block (some configBlock)), .handleBlock 0,
    .handled 0 (.ok ()), .updateBlockHeader 0, .onBlockProcessingSuccess 0,
    .stop 0 "got a signal to stop", .fetch 1 "second",
    .response 1 (.block (some signedBlock)), .handleBlock 1]

theorem switched_authenticatedChain :
    RunsUndisturbed signedCodec (start plainVerifier) switched ∧
      ((start plainVerifier).run signedCodec switched).handled = [configBlock, signedBlock] ∧
      AuthenticatedChain signedCodec plainVerifier
        ((start plainVerifier).run signedCodec switched).handled := by
  have hhandling : ((start plainVerifier).run signedCodec (switched.take 3)).stageOf 0 =
      .handling { number := 5, previousHash := [1], dataHash := [1] } configBlock := by
    decide +kernel
  have happlied : (((start plainVerifier).run signedCodec (switched.take 3)).applyConfig
      signedCodec 0 { number := 5, previousHash := [1], dataHash := [1] }
        configBlock).toOption.isSome := by
    decide +kernel
  have hquiet : ((start plainVerifier).run signedCodec (switched.take 8)).Quiet := by
    intro receiver
    have hfirst : ((start plainVerifier).run signedCodec (switched.take 8)).stageOf 0 =
        .ended (some "got a signal to stop") := by
      decide +kernel
    have hsecond : ((start plainVerifier).run signedCodec (switched.take 8)).stageOf 1 =
        .receiving := by
      decide +kernel
    rcases receiver with _ | _ | receiver
    · rw [hfirst]
      exact id
    · rw [hsecond]
      exact id
    · rw [stageOf_run_of_ne (by simp [switched, receiverOf])]
      exact id
  have hruns : RunsUndisturbed signedCodec (start plainVerifier) switched := by
    refine runsWith_iff.mpr ?_
    intro n event hevent
    have hlt : n < 10 := (List.getElem?_eq_some_iff.mp hevent).1
    interval_cases n <;> cases hevent
    case «1» =>
      intro receiver
      cases receiver <;> exact id
    case «3» =>
      intro _ _ hstage
      cases hhandling.symm.trans hstage
      obtain ⟨after, hafter⟩ := Option.isSome_iff_exists.mp happlied
      exact ⟨rfl, after, Except.eq_ok_of_toOption hafter⟩
    case «8» => exact hquiet
    all_goals trivial
  exact ⟨hruns, by decide +kernel, handled_authenticatedChain signedCodec plainVerifier _ hruns⟩

/-- `HandleBlock` of the block 5 is slow, and a second fetch starts meanwhile.
When the first receiver comes back it sets the verifier to 5 again. -/
def overlapping : List Event :=
  [.fetch 0 "first", .response 0 (.block (some (plainBlock 5))), .handleBlock 0, .fetch 1 "second",
    .response 1 (.block (some (plainBlock 6))), .handleBlock 1,
    .handled 1 (.ok ()), .updateBlockHeader 1, .onBlockProcessingSuccess 1,
    .handled 0 (.ok ()), .updateBlockHeader 0, .onBlockProcessingSuccess 0,
    .response 1 (.block (some (plainBlock 6))), .handleBlock 1,
    .handled 1 (.ok ())]

/-- The second receiver hands over the block 6 twice. -/
theorem overlapping_not_authenticatedChain :
    ((start plainVerifier).run plainCodec overlapping).handled =
        [plainBlock 5, plainBlock 6, plainBlock 6] ∧
      ¬ AuthenticatedChain plainCodec plainVerifier
        ((start plainVerifier).run plainCodec overlapping).handled := by
  have hhnd : ((start plainVerifier).run plainCodec overlapping).handled =
      [plainBlock 5, plainBlock 6, plainBlock 6] := by
    decide
  refine ⟨hhnd, ?_⟩
  intro hch
  rw [hhnd] at hch
  obtain ⟨_, hblk⟩ := hch [plainBlock 5, plainBlock 6] (plainBlock 6) [] rfl
  cases hblk.header_eq
  exact absurd hblk.number (by decide)

end Deliverer

end FabricSequencer.Deliverclient
