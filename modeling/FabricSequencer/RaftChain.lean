import FabricSequencer.BlockData
import FabricSequencer.RaftMembership

/-!
# The main loop of the etcdraft chain

`Chain.run` serves submitted envelopes, the entries raft has committed, the
batch timer and snapshots.  Blocks are proposed through a channel of fixed
capacity that another goroutine drains into raft.

A function of the chain returns the next chain, or the panic together with the
chain as it is at that moment: what was written before a panic stays written.
The calls of `WriteBlock` and `WriteConfigBlock` are recorded in `written`.
-/

namespace FabricSequencer.Etcdraft

open BlockCutter

inductive HeaderType where
  | config
  | ordererTransaction
  | other (code : ℕ)

/-- What `ConsensusMetadataFromConfigBlock` finds in a configuration block. -/
inductive ConsensusUpdate where
  | unreadable (text : String)
  | missing
  | bft
  | illegal (type : GoString)
  | raft (consenters : Option (List Consenter))

structure ConfigContent where
  channelHeader : Except String HeaderType
  update : ConsensusUpdate

/-- A decoded block: its number, its consenter metadata and, if it is a
configuration block, what the chain reads from it. -/
structure Block where
  number : ℕ
  number_lt : number < 2 ^ 64
  consenterMetadata : Except String Unit := .ok ()
  config : Option ConfigContent := none

def Block.isConfigBlock (block : Block) : Bool := block.config.isSome

inductive EntryData where
  | empty
  | block (block : Block)
  | malformedBlock (text : String)
  | confChange (change : RaftConfChange)
  | malformedConfChange
  | unsupportedConfChange

structure Entry where
  index : ℕ
  data : EntryData

inductive RaftState where
  | follower
  | preCandidate
  | candidate
  | leader
deriving DecidableEq

structure SoftState where
  lead : ℕ
  raftState : RaftState

structure CreatedBlock where
  number : ℕ
  batch : List Envelope

structure Options where
  raftID : ℕ
  raftID_ne_zero : raftID ≠ 0
  maxInflightBlocks : ℕ

/-- The set-up of the connections to the other consenters, which fails on a
certificate it cannot read. -/
structure ChainSupport where
  configureComm : ConsenterMap → Except String Unit

def isConfigBatch (batch : List Envelope) : Bool :=
  match batch with
  | [env] => Protoutil.isConfigPayload env.payload
  | _ => false

def isConfig (env : Envelope) : Except String Bool :=
  (Protoutil.channelHeader env).map fun chdr =>
    chdr.type = Protoutil.headerTypeConfig

structure Chain where
  lastBlock : Block
  appliedIndex : ℕ
  membership : Membership
  blockInflight : ℕ := 0
  configInflight : Bool := false
  justElected : Bool := false
  confChangeInProgress : Option RaftConfChange := none
  soft : SoftState := { lead := 0, raftState := .follower }
  /-- The local `submitC` is not nil. -/
  accepting : Bool := true
  /-- The number the local block creator is at. -/
  creator : Option ℕ := none
  /-- The blocks in the channel to the proposing goroutine. -/
  propC : Option (List CreatedBlock) := none
  /-- The goroutine that reads the present channel has not returned. -/
  proposing : Bool := false
  /-- What that goroutine has proposed and this chain has not applied. -/
  proposed : List ℕ := []
  cutter : Receiver := newReceiverImpl
  ticking : Bool := false
  written : List ℕ := []

inductive Panic where
  | overflow
  | nilBlockCreator
  | unexpectedBlock (number expected : ℕ)
  | firstIndex (index applied : ℕ)
  | unmarshalBlock (text : String)
  | unsupportedConfChange
  | configHeader (text : String)
  | configType (type : HeaderType)
  | consensusMetadata (text : String)
  | illegalConsensusType (type : GoString)
  | illegalChange (text : String)
  | configureComm (text : String)
  | blockMetadata (text : String)
  | snapshot (text : String)

structure Stopped where
  panic : Panic
  chain : Chain

abbrev Turn := Except Stopped Chain

def Turn.chain : Turn → Chain
  | .ok chain => chain
  | .error stopped => stopped.chain

section Loop

variable (opts : Options) (support : ChainSupport) (c : Chain)

def Chain.detectConfChange (content : ConfigContent) : Except Stopped (Option MembershipChanges) :=
  match content.update with
  | .unreadable text => .error ⟨.consensusMetadata text, c⟩
  | .missing => .ok none
  | .bft => .ok none
  | .illegal type => .error ⟨.illegalConsensusType type, c⟩
  | .raft none => .ok none
  | .raft (some consenters) =>
    match computeMembershipChanges c.membership.metadata
        c.membership.consenters.entries c.membership.consenters.entries
        consenters with
    | .error text => .error ⟨.illegalChange text, c⟩
    | .ok changes => .ok (some changes)

/-- `configureComm` where an error is a panic. -/
def Chain.configureCommOrPanic : Turn :=
  match support.configureComm c.membership.consenters with
  | .error text => .error ⟨.configureComm text, c⟩
  | .ok () => .ok c

section

variable (block : Block)

def Chain.write : Chain :=
  { c with written := c.written ++ [block.number] }

/-- `writeConfigBlock` for a block whose first envelope is a configuration. -/
def Chain.writeConfigBlock (content : ConfigContent) (index : ℕ) : Turn :=
  match content.channelHeader with
  | .error text => .error ⟨.configHeader text, c⟩
  | .ok .config => do
      let c := { c with configInflight := false }
      let configMembership ← c.detectConfChange content
      let indexed : Membership :=
        { c.membership with
          metadata := { c.membership.metadata with raftIndex := index } }
      match configMembership with
      | none => .ok ({ c with membership := indexed }.write block)
      | some changes =>
        let c := { c with membership := changes.applied }.write block
        match changes.confChange with
        | some change =>
          .ok
            { c with
              confChangeInProgress := some change
              configInflight := true }
        | none => c.configureCommOrPanic support
  | .ok type => .error ⟨.configType type, { c with configInflight := false }⟩

def Chain.writeBlock (index : ℕ) : Turn :=
  let expected := uint64 (c.lastBlock.number + 1)
  if block.number > expected then
    .error ⟨.unexpectedBlock block.number expected, c⟩
  else if block.number < expected then .ok c
  else
    let c :=
      { c with
        blockInflight := c.blockInflight - 1
        lastBlock := block }
    match block.config with
    | some content => c.writeConfigBlock support block content index
    | none =>
      let metadata := { c.membership.metadata with raftIndex := index }
      .ok ({ c with membership := { c.membership with metadata := metadata } }.write block)

def MembershipChanges.changed (mc : MembershipChanges) : Bool :=
  mc.addedNodes.length > 0 || mc.removedNodes.length > 0

def Chain.commitBlock : Turn :=
  match block.consenterMetadata with
  | .error text => .error ⟨.blockMetadata text, c⟩
  | .ok () => do
      let c := c.write block
      match block.config with
      | none => .ok c
      | some content =>
        match ← c.detectConfChange content with
        | none => .ok c
        | some changes =>
          if changes.changed then
            let moved := { c with membership := changes.applied }
            moved.configureCommOrPanic support
          else .ok c

end

/-- The end of an iteration of `apply`. -/
def Chain.advance (index : ℕ) : Chain :=
  if index > c.appliedIndex then { c with appliedIndex := index } else c

def Chain.finishConfChange (change : RaftConfChange) : Chain :=
  if c.confChangeInProgress = some change then
    { c with confChangeInProgress := none, configInflight := false }
  else c

def Chain.applyEntry (entry : Entry) : Turn :=
  match entry.data with
  | .empty => .ok (c.advance entry.index)
  | .block block =>
    if entry.index ≤ c.appliedIndex then .ok (c.advance entry.index)
    else do
      let c ← c.writeBlock support block entry.index
      .ok (c.advance entry.index)
  | .malformedBlock text =>
    if entry.index ≤ c.appliedIndex then .ok (c.advance entry.index)
    else .error ⟨.unmarshalBlock text, c⟩
  -- A change that cannot be read skips the rest of the iteration.
  | .malformedConfChange => .ok c
  | .unsupportedConfChange => .error ⟨.unsupportedConfChange, c⟩
  | .confChange change => .ok ((c.finishConfChange change).advance entry.index)

def Chain.apply (entries : List Entry) : Turn :=
  match entries with
  | [] => .ok c
  | first :: _ =>
    if first.index > uint64 (c.appliedIndex + 1) then
      .error ⟨.firstIndex first.index c.appliedIndex, c⟩
    else entries.foldlM (Chain.applyEntry support) c

/-- What one try to fetch blocks meets: whether an endpoint is reached, its
last block, the blocks it streams (`none` is a failure of the stream or of the
response) and the verdict of `VerifyBlockSequence`. -/
structure Attempt where
  connected : Bool
  latestSeq : ℕ
  responses : List (Option Block)
  verified : Bool

def popBlock (seq : ℕ) : List Block → Option Block × List Block
  | [] => (none, [])
  | block :: rest =>
    if seq ≠ block.number then (none, []) else (some block, rest)

/-- The loop of `pullBlocks`.  The size of a block is given by `size`. -/
def pullBlocks (maxTotalBufferBytes : ℕ) (size : Block → ℕ)
    (latestSeq : ℕ) : List (Option Block) → ℕ → ℕ → List Block → Option (List Block)
  | responses, expected, total, buffer =>
    if total < maxTotalBufferBytes ∧ expected ≤ latestSeq then
      match responses with
      | some block :: rest =>
        if block.number ≠ expected then none
        else
          pullBlocks maxTotalBufferBytes size latestSeq rest
            (uint64 (expected + 1)) (total + size block)
            (buffer ++ [block])
      | _ => none
    else some buffer

structure PullerView where
  maxTotalBufferBytes : ℕ
  size : Block → ℕ
  height : ℕ
  ledgerBlock : ℕ → Option Block
  ledger_number : ∀ seq block, ledgerBlock seq = some block → block.number = seq

/-- `tryFetchBlock`: the block and the buffer that is left. -/
def PullerView.tryFetchBlock (view : PullerView) (seq : ℕ)
    (buffer : List Block) (attempt : Attempt) : Option Block × List Block :=
  match popBlock seq buffer with
  | (some block, rest) => (some block, rest)
  | (none, rest) =>
    if !attempt.connected then (none, rest)
    else
      match pullBlocks view.maxTotalBufferBytes view.size attempt.latestSeq
          attempt.responses seq 0 [] with
      | none => (none, [])
      | some pulled =>
        if attempt.verified then popBlock seq pulled else (none, [])

/-- `PullBlock` of the cluster's puller.  No attempt is left when its retries
are exhausted or it is stopped. -/
def PullerView.pullRemote (view : PullerView) (seq : ℕ) :
    List Block → List Attempt → Option Block × List Block
  | buffer, [] => (none, buffer)
  | buffer, attempt :: attempts =>
    match view.tryFetchBlock seq buffer attempt with
    | (some block, rest) => (some block, rest)
    | (none, rest) => view.pullRemote seq rest attempts

def PullerView.pullBlock (view : PullerView) (seq : ℕ) (buffer : List Block)
    (attempts : List Attempt) : Option Block × List Block :=
  if uint64 (view.height + 2 ^ 64 - 1) ≥ seq then
    (view.ledgerBlock seq, buffer)
  else view.pullRemote seq buffer attempts

structure Pull where
  view : PullerView
  attempts : List Attempt

/-- The loop of `catchUp`, one pull an iteration. -/
def Chain.pullAll (last : ℕ) : List Pull → ℕ → List Block → Chain → Turn
  | pulls, next, buffer, c =>
    if next ≤ last then
      match pulls with
      | [] => .error ⟨.snapshot ("failed to fetch block [" ++ toString next ++ "] from cluster"), c⟩
      | pull :: pulls =>
        match pull.view.pullBlock next buffer pull.attempts with
        | (none, _) =>
          .error ⟨.snapshot ("failed to fetch block [" ++ toString next ++ "] from cluster"), c⟩
        | (some block, rest) => do
            let c ← c.commitBlock support block
            Chain.pullAll last pulls (uint64 (next + 1)) rest
              { c with lastBlock := block }
    else .ok c

structure Snapshot where
  index : ℕ
  block : Except String Block
  createPuller : Except String Unit
  pulls : List Pull

/-- `catchUp`, where the caller turns an error into a panic. -/
def Chain.catchUp (snap : Snapshot) : Turn :=
  match snap.block with
  | .error text => .error ⟨.snapshot ("failed to unmarshal snapshot data to block: " ++ text), c⟩
  | .ok b =>
    if c.lastBlock.number ≥ b.number then .ok c
    else if b.number = uint64 (c.lastBlock.number + 1) then do
      let c ← c.commitBlock support b
      .ok { c with lastBlock := b }
    else
      match snap.createPuller with
      | .error text => .error ⟨.snapshot ("failed to create block puller: " ++ text), c⟩
      | .ok () => Chain.pullAll support b.number snap.pulls (uint64 (c.lastBlock.number + 1)) [] c

def Chain.receiveSnapshot (snap : Snapshot) : Turn :=
  if snap.index ≠ 0 then
    if snap.index ≤ c.appliedIndex then .ok c
    else { c with appliedIndex := snap.index }.catchUp support snap
  else c.catchUp support snap

structure Submission where
  payload : Envelope
  revalidated : Except String Envelope
  outdated : Bool
  evicts : Bool
  batchSize : BatchSize

structure Ordered where
  batches : List (List Envelope)
  pending : Bool
  cutter : Receiver

def Chain.ordered (c : Chain) (msg : Submission) : Except String Ordered :=
  match isConfig msg.payload with
  | .error text => .error ("bad message: " ++ text)
  | .ok true =>
    let checked : Except String Envelope :=
      if msg.outdated then msg.revalidated else .ok msg.payload
    match checked with
    | .error text => .error ("bad config message: " ++ text)
    | .ok payload =>
      if msg.evicts then
        .ok { batches := [], pending := false, cutter := c.cutter }
      else
        let (batch, rest) := c.cutter.cut
        let before := batch.getD []
        .ok
          { batches := (if before.length ≠ 0 then [before] else []) ++ [[payload]]
            pending := false
            cutter := rest }
  | .ok false =>
    let checked : Except String Envelope :=
      if msg.outdated then msg.revalidated else .ok msg.payload
    match checked with
    | .error text => .error ("bad normal message: " ++ text)
    | .ok _ =>
      let (batches, pending, rest) := c.cutter.ordered msg.batchSize msg.payload
      .ok { batches := batches, pending := pending, cutter := rest }

/-- `propose`.  A send on a nil or a full channel takes the default case. -/
def Chain.propose : List (List Envelope) → Chain → Turn
  | [], c => .ok c
  | batch :: batches, c =>
    match c.creator with
    | none => .error ⟨.nilBlockCreator, c⟩
    | some number =>
      let block : CreatedBlock :=
        { number := uint64 (number + 1), batch := batch }
      let c := { c with creator := some block.number }
      match c.propC with
      | none => .error ⟨.overflow, c⟩
      | some queue =>
        if queue.length < opts.maxInflightBlocks then
          Chain.propose batches
            { c with
              propC := some (queue ++ [block])
              configInflight := c.configInflight || isConfigBatch batch
              blockInflight := c.blockInflight + 1 }
        else .error ⟨.overflow, c⟩

/-- The case of the main loop for a submitted request. -/
def Chain.submit (msg : Submission) : Turn :=
  if c.soft.raftState = .preCandidate ∨ c.soft.raftState = .candidate then .ok c
  else if c.soft.lead ≠ opts.raftID then .ok c
  else
    match c.ordered msg with
    | .error _ => .ok c
    | .ok result =>
      let c := { c with cutter := result.cutter }
      if !result.pending && result.batches.length = 0 then .ok c
      else do
        let c ← Chain.propose opts result.batches
          { c with ticking := result.pending }
        if c.configInflight then .ok { c with accepting := false }
        else if c.blockInflight ≥ opts.maxInflightBlocks then
          .ok { c with accepting := false }
        else .ok c

def Chain.timerExpired : Turn :=
  let (batch, rest) := c.cutter.cut
  let c := { c with ticking := false, cutter := rest }
  if (batch.getD []).length = 0 then .ok c
  else Chain.propose opts [batch.getD []] c

/-- `becomeLeader`, with the voters raft has at that moment. -/
def Chain.becomeLeader (voters : List ℕ) : Chain :=
  let inFlight : Option RaftConfChange :=
    if c.confChangeInProgress.isNone &&
        (c.lastBlock.number = 0 || !c.lastBlock.isConfigBlock) then none
    else
      getInFlightConfChange c.confChangeInProgress c.membership.metadata voters
  { c with
    blockInflight := 0
    justElected := true
    accepting := false
    confChangeInProgress :=
      if inFlight.isSome then inFlight else c.confChangeInProgress
    configInflight := c.configInflight || inFlight.isSome
    propC := some []
    proposing := true
    proposed := [] }

/-- `becomeFollower`.  Cancelling ends the proposing goroutine. -/
def Chain.becomeFollower : Chain :=
  { c with
    blockInflight := 0
    cutter := c.cutter.cut.2
    ticking := false
    accepting := true
    creator := none
    proposing := false }

def Chain.updateSoft (soft : SoftState) (voters : List ℕ) : Chain :=
  let changed : Chain :=
    if soft.lead = c.soft.lead then c
    else
      let led := if soft.lead = opts.raftID then c.becomeLeader voters else c
      if c.soft.lead = opts.raftID then led.becomeFollower else led
  { changed with soft := soft }

structure Ready where
  soft : Option SoftState
  entries : List Entry
  lastIndex : ℕ
  voters : List ℕ

/-- What the main loop does after `apply`. -/
def Chain.resume (lastIndex : ℕ) : Chain :=
  if c.justElected then
    if lastIndex > c.appliedIndex then c
    else if c.configInflight then c
    else
      { c with
        creator := some c.lastBlock.number
        accepting := true
        justElected := false }
  else if c.configInflight then { c with accepting := false }
  else if c.blockInflight < opts.maxInflightBlocks then
    { c with accepting := true }
  else c

/-- The numbers of the blocks that `apply` does not skip as applied. -/
def newBlocks : ℕ → List Entry → List ℕ
  | _, [] => []
  | applied, entry :: entries =>
    match entry.data with
    | .malformedConfChange => newBlocks applied entries
    | .block block =>
      if entry.index ≤ applied then newBlocks applied entries
      else block.number :: newBlocks entry.index entries
    | _ => newBlocks (max applied entry.index) entries

def Chain.observe (ready : Ready) : Chain :=
  match ready.soft with
  | none => c
  | some soft => c.updateSoft opts soft ready.voters

def Chain.receiveReady (ready : Ready) : Turn := do
  let observed := c.observe opts ready
  let applied ← observed.apply support ready.entries
  .ok ({ applied with
        proposed := applied.proposed.drop
          (newBlocks observed.appliedIndex ready.entries).length }.resume opts
      ready.lastIndex)

inductive Event where
  | submitted (msg : Submission)
  | ready (ready : Ready)
  | timer
  | snapshot (snap : Snapshot)
  /-- The goroutine takes a block and raft accepts the proposal. -/
  | proposed
  /-- The goroutine takes a block, the proposal fails and it returns. -/
  | proposalFailed

def Chain.drain (accepted : Bool) : Chain :=
  match c.proposing, c.propC with
  | true, some (block :: rest) =>
    if accepted then
      { c with
        propC := some rest
        proposed := c.proposed ++ [block.number] }
    else { c with propC := some rest, proposing := false }
  | _, _ => c

def Chain.step : Event → Turn
  | .submitted msg => if c.accepting then c.submit opts msg else .ok c
  | .ready ready => c.receiveReady opts support ready
  | .timer => if c.ticking then c.timerExpired opts else .ok c
  | .snapshot snap => c.receiveSnapshot support snap
  | .proposed => .ok (c.drain true)
  | .proposalFailed => .ok (c.drain false)

def Chain.run (events : List Event) : Turn := events.foldlM (Chain.step opts support) c

end Loop

end FabricSequencer.Etcdraft
