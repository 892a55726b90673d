import FabricSequencer.BlockVerification

/-!
# The deliverer of blocks

`BFTDeliverer.FetchBlocks` starts a receiver, whose `processMsg` verifies each
block of the stream, hands it to the block handler, and then brings the
verifier up to date.  The verifier is shared by all receivers.  A suspicion of
censorship starts the next fetch without waiting for the receiver before it,
which may be anywhere inside `processMsg`: their steps are interleaved.

The position in the chain is kept twice: the verifier has the header it was
given last, and the deliverer has the number it asks the orderers for.  The
addresses of the orderers and the timers are left out.
-/

namespace FabricSequencer.Deliverclient

open Protoutil BlockVerificationAssistant
open Blockwriter (BlockHeader)

inductive DeliverResponse where
  | status (success : Bool) (text : String)
  | block (block : Option Block)
  | unknown (text : String)

/-- How far a receiver is in `ProcessIncoming`.  The last four stages are
inside `processMsg` and the call that follows it. -/
inductive Stage where
  | ended (err : Option String)
  | receiving
  | verified (header : BlockHeader) (block : Block)
  | handling (header : BlockHeader) (block : Block)
  | configured (header : BlockHeader)
  | updated (header : BlockHeader)
deriving DecidableEq

def Stage.Busy : Stage → Prop
  | .ended _ | .receiving => False
  | .verified _ _ | .handling _ _ | .configured _ | .updated _ => True

structure Receiver where
  endpoint : String
  stage : Stage

inductive Event where
  | fetch (receiver : ℕ) (source : String)
  | stop (receiver : ℕ) (err : String)
  | response (receiver : ℕ) (msg : DeliverResponse)
  | handleBlock (receiver : ℕ)
  | handled (receiver : ℕ) (result : Except String Unit)
  | updateBlockHeader (receiver : ℕ)
  | onBlockProcessingSuccess (receiver : ℕ)

/-- The shared state.  `handled` has the blocks given to `HandleBlock`, and
`failed` counts the verified blocks for which `HandleBlock`, `ConfigFromBlock`
or `UpdateConfig` has failed since `onBlockProcessingSuccess`. -/
structure Deliverer where
  verifier : BlockVerificationAssistant
  nextBlockNumber : ℕ
  receivers : ℕ → Receiver
  crashed : Bool
  handled : List Block
  failed : ℕ

namespace Deliverer

variable {Config : Type} (codec : VerifierCodec Config) (verifier : BlockVerificationAssistant)

/-- The deliverer of a channel whose verifier stands at the last block of the
ledger. -/
def start : Deliverer where
  verifier := verifier
  nextBlockNumber := uint64 (verifier.lastBlockNumber + 1)
  receivers := fun _ => ⟨"", .ended none⟩
  crashed := false
  handled := []
  failed := 0

variable (d : Deliverer) (receiver r : ℕ)

def stageOf : Stage := (d.receivers receiver).stage

def setStage (stage : Stage) : Deliverer :=
  { d with
    receivers := Function.update d.receivers receiver
      { d.receivers receiver with stage := stage } }

/-- `block [n] from orderer [o]`. -/
def blockText (header : BlockHeader) : String :=
  "block [" ++ toString header.number ++ "] from orderer [" ++
    (d.receivers receiver).endpoint ++ "]"

/-- The beginning of `processMsg`.  The number of the block is read before the
block is verified, so a block without a header is a panic. -/
def receive : DeliverResponse → Deliverer
  | .status true _ =>
    d.setStage receiver (.ended "received success for a seek that should never complete")
  | .status false text =>
    d.setStage receiver (.ended ("received bad status " ++ text ++ " from orderer"))
  | .unknown text => d.setStage receiver (.ended ("unknown message type: " ++ text))
  | .block none => { d with crashed := true }
  | .block (some block) =>
    match block.header with
    | none => { d with crashed := true }
    | some header =>
      match d.verifier.verifyBlock codec header block with
      | .error err =>
        d.setStage receiver
          (.ended (d.blockText receiver header ++ " could not be verified: " ++ err))
      | .ok verifier => { d with verifier := verifier }.setStage receiver (.verified header block)

/-- `processMsg` after `HandleBlock` has returned, up to `UpdateConfig`. -/
def applyConfig (header : BlockHeader) (block : Block) : Except String Deliverer :=
  if isConfigBlock block then do
    let _ ← withMessage ("failed to extract channel-config from config " ++
      d.blockText receiver header) (configFromBlock codec header.number block)
    let verifier ← withMessage ("config " ++ d.blockText receiver header ++
      " failed to update block verifier")
      (d.verifier.updateConfig codec header block)
    pure { d with verifier := verifier }
  else pure d

def fail (err : String) : Deliverer :=
  { d with failed := d.failed + 1 }.setStage receiver (.ended err)

variable (event : Event)

def advance : Deliverer :=
  match event with
  | .fetch receiver source =>
    match d.stageOf receiver with
    | .ended _ =>
      { d with
        receivers := Function.update d.receivers receiver ⟨source, .receiving⟩ }
    | _ => d
  | .stop receiver err =>
    match d.stageOf receiver with
    | .receiving => d.setStage receiver (.ended err)
    | _ => d
  | .response receiver msg =>
    match d.stageOf receiver with
    | .receiving => d.receive codec receiver msg
    | _ => d
  | .handleBlock receiver =>
    match d.stageOf receiver with
    | .verified header block =>
      { d with handled := d.handled ++ [block] }.setStage receiver (.handling header block)
    | _ => d
  | .handled receiver result =>
    match d.stageOf receiver with
    | .handling header block =>
      match withMessage (d.blockText receiver header ++ " could not be handled") result with
      | .error err => d.fail receiver err
      | .ok () =>
        match d.applyConfig codec receiver header block with
        | .error err => d.fail receiver err
        | .ok after => after.setStage receiver (.configured header)
    | _ => d
  | .updateBlockHeader receiver =>
    match d.stageOf receiver with
    | .configured header =>
      { d with verifier := d.verifier.updateBlockHeader codec header }.setStage receiver
        (.updated header)
    | _ => d
  | .onBlockProcessingSuccess receiver =>
    match d.stageOf receiver with
    | .updated header =>
      { d with
        nextBlockNumber := uint64 (header.number + 1)
        failed := 0 }.setStage receiver .receiving
    | _ => d

def step : Deliverer :=
  if d.crashed then d else d.advance codec event

def run (events : List Event) : Deliverer := events.foldl (step codec) d

/-! ## What a step can do -/

def Quiet : Prop := ∀ receiver, ¬ (d.stageOf receiver).Busy

@[simp]
theorem stageOf_setStage_same (stage : Stage) : (d.setStage r stage).stageOf r = stage := by
  simp [setStage, stageOf]

theorem stageOf_setStage_of_ne {r other : ℕ} (stage : Stage) (hne : other ≠ r) :
    (d.setStage r stage).stageOf other = d.stageOf other := by
  simp [setStage, stageOf, Function.update_of_ne hne]

/-- The moves of the shared state.  The first covers the steps of receivers
that are outside `processMsg` before and after. -/
inductive Move (d : Deliverer) : Event → Deliverer → Prop
  | outside (event : Event) (after : Deliverer) (hverifier : after.verifier = d.verifier)
      (hnext : after.nextBlockNumber = d.nextBlockNumber)
      (hhandled : after.handled = d.handled)
      (hfailed : after.failed = d.failed)
      (hstages : ∀ receiver, after.stageOf receiver = d.stageOf receiver ∨
        ¬ (d.stageOf receiver).Busy ∧ ¬ (after.stageOf receiver).Busy) :
      Move d event after
  | verify (receiver : ℕ) (header : BlockHeader) (block : Block)
      (hheader : block.header = some header)
      (haccepts : d.verifier.Accepts codec header block) :
      Move d (.response receiver (.block (some block)))
        ({ d with verifier := d.verifier.updateBlockHeader codec header }.setStage receiver
          (.verified header block))
  | handle (receiver : ℕ) (header : BlockHeader) (block : Block)
      (hstage : d.stageOf receiver = .verified header block) :
      Move d (.handleBlock receiver)
        ({ d with handled := d.handled ++ [block] }.setStage receiver (.handling header block))
  | fail (receiver : ℕ) (result : Except String Unit) (header : BlockHeader)
      (block : Block) (err : String)
      (hstage : d.stageOf receiver = .handling header block)
      (hfails : ¬ (result = .ok () ∧
        ∃ after, d.applyConfig codec receiver header block = .ok after)) :
      Move d (.handled receiver result) (d.fail receiver err)
  | configure (receiver : ℕ) (result : Except String Unit)
      (header : BlockHeader) (block : Block) (after : Deliverer)
      (hstage : d.stageOf receiver = .handling header block)
      (happly : d.applyConfig codec receiver header block = .ok after) :
      Move d (.handled receiver result) (after.setStage receiver (.configured header))
  | update (receiver : ℕ) (header : BlockHeader)
      (hstage : d.stageOf receiver = .configured header) :
      Move d (.updateBlockHeader receiver)
        ({ d with verifier := d.verifier.updateBlockHeader codec header }.setStage receiver
          (.updated header))
  | succeed (receiver : ℕ) (header : BlockHeader) (hstage : d.stageOf receiver = .updated header) :
      Move d (.onBlockProcessingSuccess receiver) ({ d with
          nextBlockNumber := uint64 (header.number + 1)
          failed := 0 }.setStage receiver .receiving)

theorem Move.refl : Move codec d event d :=
  .outside event d rfl rfl rfl rfl fun _ => .inl rfl

variable {receiver r : ℕ} {stage : Stage}

theorem Move.outside_setStage (d : Deliverer) (event : Event)
    (hl : ¬ (d.stageOf r).Busy) (hn : ¬ stage.Busy) : Move codec d event (d.setStage r stage) := by
  refine .outside event _ rfl rfl rfl rfl ?_
  intro other
  by_cases heq : other = r
  · subst heq
    rw [stageOf_setStage_same]
    exact .inr ⟨hl, hn⟩
  · exact .inl (stageOf_setStage_of_ne d stage heq)

theorem receive_move (r : ℕ) (msg : DeliverResponse) (hst : d.stageOf r = .receiving) :
    Move codec d (.response r msg) (d.receive codec r msg) := by
  have hid : ¬ (d.stageOf r).Busy := by
    rw [hst]
    exact id
  have hcr : Move codec d (.response r msg)
      { d with crashed := true } :=
    .outside _ _ rfl rfl rfl rfl fun _ => .inl rfl
  unfold receive
  split
  · exact .outside_setStage codec d _ hid id
  · exact .outside_setStage codec d _ hid id
  · exact .outside_setStage codec d _ hid id
  · exact hcr
  rename_i b
  cases hh : b.header with
  | none => exact hcr
  | some hdr =>
    dsimp only
    cases hv : d.verifier.verifyBlock codec hdr b with
    | error => exact .outside_setStage codec d _ hid id
    | ok =>
      obtain ⟨ha, rfl⟩ := (verifyBlock_ok_iff codec).mp hv
      exact .verify r hdr b hh ha

variable {header hdr : BlockHeader}

theorem handled_move (d : Deliverer) (r : ℕ) (rs : Except String Unit) {b : Block}
    (hst : d.stageOf r = .handling hdr b) :
    Move codec d (.handled r rs) (d.advance codec (.handled r rs)) := by
  simp only [advance, hst]
  cases hr : withMessage (d.blockText r hdr ++ " could not be handled") rs with
  | error err =>
    apply Move.fail r rs hdr b err hst
    rintro ⟨hok, -⟩
    rw [withMessage_ok_iff.mpr hok] at hr
    cases hr
  | ok =>
    dsimp only
    cases hap : d.applyConfig codec r hdr b with
    | error err =>
      apply Move.fail r rs hdr b err hst
      rintro ⟨-, _, hok⟩
      rw [hap] at hok
      cases hok
    | ok post => exact .configure r rs hdr b post hst hap

theorem advance_move : Move codec d event (d.advance codec event) := by
  cases event with
  | fetch r =>
    simp only [advance]
    split
    next hst =>
      refine .outside _ _ rfl rfl rfl rfl ?_
      intro other
      by_cases heq : other = r
      · subst heq
        refine .inr ⟨?_, ?_⟩
        · rw [hst]
          exact id
        · simp [stageOf, Stage.Busy]
      · exact .inl (by simp [stageOf, Function.update_of_ne heq])
    · exact .refl codec d _
  | stop =>
    simp only [advance]
    split
    next hst =>
      apply Move.outside_setStage codec d _ _ id
      rw [hst]
      exact id
    · exact .refl codec d _
  | response r msg =>
    simp only [advance]
    split
    next hst =>
      exact receive_move codec d r msg hst
    · exact .refl codec d _
  | handleBlock r =>
    simp only [advance]
    split
    next hdr b hst =>
      exact .handle r hdr b hst
    · exact .refl codec d _
  | handled r rs =>
    cases hst : d.stageOf r with
    | handling => exact handled_move codec d r rs hst
    | _ =>
      simp only [advance, hst]
      exact .refl codec d _
  | updateBlockHeader r =>
    simp only [advance]
    split
    next hdr hst =>
      exact .update r hdr hst
    · exact .refl codec d _
  | onBlockProcessingSuccess r =>
    simp only [advance]
    split
    next hdr hst =>
      exact .succeed r hdr hst
    · exact .refl codec d _

theorem step_move : Move codec d event (d.step codec event) := by
  unfold step
  split_ifs
  · exact .refl codec d event
  · exact advance_move codec d event

theorem applyConfig_eq_ok {d post : Deliverer} {b : Block}
    (hap : d.applyConfig codec r hdr b = .ok post) :
    (isConfigBlock b = false ∧ post = d) ∨
      isConfigBlock b = true ∧ ∃ verifierFunc,
        verifierFromBlock codec d.verifier.channelID b = .ok verifierFunc ∧
          post = { d with
            verifier := { d.verifier.updateBlockHeader codec hdr with
              sigVerifierFunc := verifierFunc } } := by
  cases hc : isConfigBlock b with
  | false =>
    rw [applyConfig, if_neg (by simp [hc])] at hap
    exact .inl ⟨rfl, (Except.ok.inj hap).symm⟩
  | true =>
    rw [applyConfig, if_pos hc] at hap
    obtain ⟨_, -, hap⟩ := of_bind hap
    obtain ⟨_, hu, hpu⟩ := of_bind hap
    obtain ⟨verifierFunc, hbl, hv⟩ := of_bind (withMessage_ok_iff.mp hu)
    refine .inr ⟨rfl, verifierFunc, hbl, ?_⟩
    rw [← Except.ok.inj hpu, ← Except.ok.inj hv]

/-! ## The two positions -/

theorem busy_setStage (hothers : ∀ other, other ≠ r → ¬ (d.stageOf other).Busy) {other : ℕ}
    (hbusy : ((d.setStage r stage).stageOf other).Busy) : other = r := by
  by_contra hne
  rw [stageOf_setStage_of_ne d stage hne] at hbusy
  exact hothers other hne hbusy

section

variable {d after : Deliverer}
  (hstages : ∀ receiver, after.stageOf receiver = d.stageOf receiver ∨
    ¬ (d.stageOf receiver).Busy ∧ ¬ (after.stageOf receiver).Busy)

include hstages

theorem stageOf_eq_of_busy (hbusy : (after.stageOf r).Busy) : after.stageOf r = d.stageOf r := by
  rcases hstages r with heq | ⟨-, hidle⟩
  · exact heq
  · exact absurd hbusy hidle

theorem quiet_of_outside (hquiet : after.Quiet) : d.Quiet := by
  intro r hbusy
  rcases hstages r with heq | ⟨hidle, -⟩
  · exact hquiet r (by rwa [heq])
  · exact hidle hbusy

end

/-- The events of a run, each of which is allowed where it happens. -/
def RunsWith (allowed : Deliverer → Event → Prop) : Deliverer → List Event → Prop
  | _, [] => True
  | d, event :: events => allowed d event ∧ RunsWith allowed (d.step codec event) events

variable {codec} in
theorem runsWith_iff {allowed : Deliverer → Event → Prop} {d : Deliverer} {events : List Event} :
    RunsWith codec allowed d events ↔ ∀ n event, events[n]? = some event →
      allowed (d.run codec (events.take n)) event := by
  induction events generalizing d with
  | nil => simp [RunsWith]
  | cons first rest ih =>
    rw [RunsWith, ih]
    constructor
    · rintro ⟨hfirst, hrest⟩ n event hevent
      cases n with
      | zero =>
        cases hevent
        exact hfirst
      | succ n => exact hrest n event hevent
    · intro hall
      exact ⟨hall 0 first rfl, fun n event hevent => hall (n + 1) event hevent⟩

/-- No receiver takes a response while another one is inside `processMsg`. -/
def TakesTurns (d : Deliverer) : Event → Prop
  | .response _ _ => d.Quiet
  | _ => True

def workingHeader : Stage → Option BlockHeader
  | .ended _ | .receiving => none
  | .verified header _ | .handling header _ | .configured header
  | .updated header => some header

theorem busy_of_workingHeader (hworking : workingHeader stage = some hdr) : stage.Busy := by
  cases stage with
  | ended | receiving => cases hworking
  | verified | handling | configured | updated => trivial

/-- The verifier has the header of the block in work, and is one block ahead
then. -/
def InWork (d : Deliverer) (header : BlockHeader) : Prop :=
  d.verifier.lastBlockNumber = header.number ∧
    uint64 (header.number + 1) = uint64 (d.nextBlockNumber + (d.failed + 1))

/-- Outside `processMsg` the verifier is ahead of the deliverer by the blocks
whose processing has failed. -/
structure Positions (d : Deliverer) : Prop where
  next_lt : d.nextBlockNumber < 2 ^ 64
  single : ∀ first second, (d.stageOf first).Busy → (d.stageOf second).Busy → first = second
  working : ∀ receiver header, workingHeader (d.stageOf receiver) = some header → d.InWork header
  quiet : d.Quiet →
    uint64 (d.verifier.lastBlockNumber + 1) = uint64 (d.nextBlockNumber + d.failed)

variable {d : Deliverer}

theorem Positions.of_setStage (hothers : ∀ other, other ≠ r → ¬ (d.stageOf other).Busy)
    (hlt : d.nextBlockNumber < 2 ^ 64)
    (hworking : ∀ header, workingHeader stage = some header → d.InWork header)
    (hquiet : ¬ stage.Busy →
      uint64 (d.verifier.lastBlockNumber + 1) = uint64 (d.nextBlockNumber + d.failed)) :
    Positions (d.setStage r stage) where
  next_lt := hlt
  single first second hfirst hsecond := by
    rw [busy_setStage d hothers hfirst, busy_setStage d hothers hsecond]
  working other header hheader := by
    have hother := busy_setStage d hothers (busy_of_workingHeader hheader)
    subst hother
    rw [stageOf_setStage_same] at hheader
    exact hworking header hheader
  quiet hidle := by
    apply hquiet
    have hreceiver := hidle r
    rwa [stageOf_setStage_same] at hreceiver

theorem Positions.at_stage (hpos : Positions d) (hstage : d.stageOf r = stage)
    (hworking : workingHeader stage = some hdr) :
    d.InWork hdr ∧ ∀ other, other ≠ r → ¬ (d.stageOf other).Busy := by
  subst hstage
  refine ⟨hpos.working r hdr hworking, ?_⟩
  intro other hne hbusy
  exact hne (hpos.single other r hbusy (busy_of_workingHeader hworking))

theorem Positions.outside {after : Deliverer} (hpos : Positions d)
    (hverifier : after.verifier = d.verifier)
    (hnext : after.nextBlockNumber = d.nextBlockNumber) (hfailed : after.failed = d.failed)
    (hstages : ∀ receiver, after.stageOf receiver = d.stageOf receiver ∨
      ¬ (d.stageOf receiver).Busy ∧ ¬ (after.stageOf receiver).Busy) :
    Positions after where
  next_lt := hnext ▸ hpos.next_lt
  single first second hfirst hsecond := by
    have hsameFirst := stageOf_eq_of_busy hstages hfirst
    have hsameSecond := stageOf_eq_of_busy hstages hsecond
    rw [hsameFirst] at hfirst
    rw [hsameSecond] at hsecond
    exact hpos.single first second hfirst hsecond
  working receiver header hheader := by
    rw [stageOf_eq_of_busy hstages (busy_of_workingHeader hheader)] at hheader
    have hwork := hpos.working receiver header hheader
    unfold InWork at hwork ⊢
    rwa [hverifier, hnext, hfailed]
  quiet hquiet := by
    rw [hverifier, hnext, hfailed]
    exact hpos.quiet (quiet_of_outside hstages hquiet)

theorem Positions.verify (hpos : Positions d) (hquiet : d.Quiet) {b : Block}
    (haccepts : d.verifier.Accepts codec hdr b) :
    Positions ({ d with verifier := d.verifier.updateBlockHeader codec hdr }.setStage r
      (.verified hdr b)) := by
  apply Positions.of_setStage
  · exact fun other _ => hquiet other
  · exact hpos.next_lt
  · intro _ hheader
    cases hheader
    have hahead := hpos.quiet hquiet
    refine ⟨rfl, ?_⟩
    rw [haccepts.number, hahead]
    simp [uint64, add_assoc]
  · exact fun hidle => absurd trivial hidle

theorem Positions.goOn {post : Deliverer} {next : Stage} (hpos : Positions d)
    (hstage : d.stageOf r = stage) (hworking : workingHeader stage = some hdr)
    (hsame : post.receivers = d.receivers ∧ post.nextBlockNumber = d.nextBlockNumber ∧
      post.failed = d.failed)
    (hlast : d.verifier.lastBlockNumber = hdr.number → post.verifier.lastBlockNumber = hdr.number)
    (hnext : workingHeader next = some hdr) : Positions (post.setStage r next) := by
  obtain ⟨hwork, hothers⟩ := hpos.at_stage hstage hworking
  obtain ⟨hreceivers, hnumber, hfailed⟩ := hsame
  apply Positions.of_setStage
  · simpa only [stageOf, hreceivers] using hothers
  · exact hnumber ▸ hpos.next_lt
  · intro header hheader
    rw [hnext] at hheader
    cases hheader
    refine ⟨hlast hwork.1, ?_⟩
    rw [hnumber, hfailed]
    exact hwork.2
  · exact fun hidle => absurd (busy_of_workingHeader hnext) hidle

theorem Positions.move {after : Deliverer} {event : Event} (hpos : Positions d)
    (hturn : d.TakesTurns event) (hmove : Move codec d event after) : Positions after := by
  cases hmove with
  | outside _ _ hverifier hnext _ hfailed hstages =>
    exact hpos.outside hverifier hnext hfailed hstages
  | verify _ _ _ _ haccepts => exact hpos.verify codec hturn haccepts
  | handle _ _ _ hstage => exact hpos.goOn hstage rfl ⟨rfl, rfl, rfl⟩ id rfl
  | fail _ _ _ _ _ hstage =>
    obtain ⟨⟨hlast, hahead⟩, hothers⟩ := hpos.at_stage hstage rfl
    refine Positions.of_setStage hothers hpos.next_lt (fun _ hheader => nomatch hheader) ?_
    intro _
    rw [← hlast] at hahead
    exact hahead
  | configure _ _ _ _ _ hstage happly =>
    rcases applyConfig_eq_ok codec happly with ⟨-, rfl⟩ | ⟨-, _, -, rfl⟩
    · exact hpos.goOn hstage rfl ⟨rfl, rfl, rfl⟩ id rfl
    · exact hpos.goOn hstage rfl ⟨rfl, rfl, rfl⟩ (fun _ => rfl) rfl
  | update _ _ hstage => exact hpos.goOn hstage rfl ⟨rfl, rfl, rfl⟩ (fun _ => rfl) rfl
  | succeed _ _ hstage =>
    obtain ⟨⟨hlast, -⟩, hothers⟩ := hpos.at_stage hstage rfl
    refine Positions.of_setStage hothers (uint64_lt _) (fun _ hheader => nomatch hheader) ?_
    intro _
    simp [hlast, uint64]

theorem Positions.run (hpos : Positions d) {events : List Event}
    (hruns : RunsWith codec TakesTurns d events) : Positions (d.run codec events) := by
  induction events generalizing d with
  | nil => exact hpos
  | cons event _ ih => exact ih (hpos.move codec hruns.1 (step_move codec d event)) hruns.2

theorem positions_start : Positions (start verifier) where
  next_lt := uint64_lt _
  single _ _ hfirst := hfirst.elim
  working _ _ hheader := nomatch hheader
  quiet _ := by simp [start, uint64]

theorem Positions.ready_iff (hpos : Positions d) :
    (d.Quiet → (uint64 (d.verifier.lastBlockNumber + 1) = d.nextBlockNumber ↔ 2 ^ 64 ∣ d.failed)) ∧
      (¬ d.Quiet → (uint64 (d.verifier.lastBlockNumber + 1) = d.nextBlockNumber ↔
        2 ^ 64 ∣ d.failed + 1)) := by
  have hnext := uint64_of_lt hpos.next_lt
  constructor
  · intro hquiet
    rw [hpos.quiet hquiet]
    nth_rewrite 2 [← hnext]
    exact uint64_add_eq_iff
  · intro hbusy
    unfold Quiet at hbusy
    push Not at hbusy
    obtain ⟨r, hbusy⟩ := hbusy
    obtain ⟨hdr, hworking⟩ : ∃ hdr, workingHeader (d.stageOf r) = some hdr := by
      cases hstage : d.stageOf r with
      | ended | receiving =>
        rw [hstage] at hbusy
        exact hbusy.elim
      | verified hdr | handling hdr | configured hdr | updated hdr => exact ⟨hdr, rfl⟩
    obtain ⟨hlast, hahead⟩ := hpos.working r hdr hworking
    rw [hlast, hahead]
    nth_rewrite 2 [← hnext]
    exact uint64_add_eq_iff

/-- While the receivers take turns, the verifier and the deliverer stand at the
same place outside `processMsg` exactly when no processing of a block has
failed since the last one that succeeded (but for 2^64 of them), and inside it
not even then.  Only where they do does the block that a fetch asks for pass. -/
theorem fetch_ready_iff (events : List Event)
    (hruns : RunsWith codec TakesTurns (start verifier) events) :
    let d := (start verifier).run codec events
    (d.Quiet → (uint64 (d.verifier.lastBlockNumber + 1) = d.nextBlockNumber ↔ 2 ^ 64 ∣ d.failed)) ∧
      (¬ d.Quiet → (uint64 (d.verifier.lastBlockNumber + 1) = d.nextBlockNumber ↔
        2 ^ 64 ∣ d.failed + 1)) ∧
      ∀ header block, header.number = d.nextBlockNumber →
        ((∃ after, d.verifier.verifyBlock codec header block = .ok after) ↔
          uint64 (d.verifier.lastBlockNumber + 1) = d.nextBlockNumber ∧
            d.verifier.Fits codec header block) := by
  have hpos := (positions_start verifier).run codec hruns
  obtain ⟨hquiet, hbusy⟩ := hpos.ready_iff
  refine ⟨hquiet, hbusy, ?_⟩
  intro _ _ hnumber
  rw [← hnumber]
  constructor
  · rintro ⟨_, hverified⟩
    obtain ⟨haccepts, -⟩ := (verifyBlock_ok_iff codec).mp hverified
    exact ⟨haccepts.number.symm, haccepts.toFits⟩
  · rintro ⟨hready, hfits⟩
    exact ⟨_, (verifyBlock_ok_iff codec).mpr ⟨⟨hfits, hready.symm⟩, rfl⟩⟩

/-- A channel in which every header is signed. -/
def plainCodec : VerifierCodec Unit where
  blockHeaderBytes := fun _ => []
  hash := fun _ => [1]
  hash_ne_nil := by simp
  unmarshalConfigEnvelope := fun _ => .error "unexpected EOF"
  verifierFromConfig := fun _ _ => .error "unexpected EOF"

def plainVerifier : BlockVerificationAssistant where
  channelID := ascii "mychannel"
  sigVerifierFunc := fun _ _ => .ok ()
  lastBlockNumber := 4
  lastBlockHeaderHash := [1]
  hash_ne_nil := by simp

/-- A block with one envelope, whose payload and signature are a byte long. -/
def plainBlock (number : ℕ) : Block where
  header := some { number := number, previousHash := [1], dataHash := [1] }
  data := [[10, 1, 1, 18, 1, 1]]
  metadata := some [[], [], [], [], []]

/-- `HandleBlock` fails for the block 5.  The verifier stands at 5 already, and
the next fetch asks for 5. -/
def handleFailure : List Event :=
  [.fetch 0 "orderer", .response 0 (.block (some (plainBlock 5))),
    .handleBlock 0, .handled 0 (.error "payload buffer is full")]

theorem fetch_not_ready_after_failure :
    ((start plainVerifier).run plainCodec handleFailure).nextBlockNumber = 5 ∧
      ((start plainVerifier).run plainCodec handleFailure).verifier.lastBlockNumber = 5 ∧
      ¬ ∃ after, ((start plainVerifier).run plainCodec
        handleFailure).verifier.verifyBlock plainCodec
          { number := 5, previousHash := [1], dataHash := [1] }
          (plainBlock 5) = .ok after := by
  have hla : ((start plainVerifier).run plainCodec handleFailure).verifier.lastBlockNumber = 5 := by
    decide
  refine ⟨by decide, hla, ?_⟩
  rintro ⟨_, hver⟩
  obtain ⟨hacc, -⟩ := (verifyBlock_ok_iff plainCodec).mp hver
  have hnum := hacc.number
  rw [hla] at hnum
  exact absurd hnum (by decide)

/-- The next orderer sends the block 6, and its processing succeeds. -/
def recovered : List Event :=
  handleFailure ++ [.fetch 0 "other", .response 0 (.block (some (plainBlock 6))),
    .handleBlock 0, .handled 0 (.ok ()), .updateBlockHeader 0, .onBlockProcessingSuccess 0]

theorem fetch_ready_after_recovery :
    RunsWith plainCodec TakesTurns (start plainVerifier) recovered ∧
      ((start plainVerifier).run plainCodec recovered).Quiet ∧
      uint64 (((start plainVerifier).run plainCodec recovered).verifier.lastBlockNumber + 1) =
        ((start plainVerifier).run plainCodec recovered).nextBlockNumber := by
  have hruns : RunsWith plainCodec TakesTurns (start plainVerifier) recovered := by
    refine ⟨trivial, ?_, trivial, trivial, trivial, ?_, trivial, trivial, trivial, trivial, trivial⟩
    all_goals
      intro r
      cases r <;> exact id
  have hquiet : ((start plainVerifier).run plainCodec recovered).Quiet := by
    intro r
    cases r <;> exact id
  obtain ⟨hready, -⟩ := fetch_ready_iff plainCodec plainVerifier recovered hruns
  exact ⟨hruns, hquiet, (hready hquiet).mpr (by decide)⟩

end Deliverer

end FabricSequencer.Deliverclient
