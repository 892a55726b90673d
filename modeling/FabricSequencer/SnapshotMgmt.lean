import FabricSequencer.GoTypes
import Mathlib

/-!
# Snapshot requests of a ledger

One goroutine, `processSnapshotMgmtEvents`, serialises block commits, snapshot
generation and the calls that submit or cancel a request.  All three channels
are unbuffered: a send and its receive are one step, and a goroutine that
sends waits until then.  `World` has one component for each goroutine, and an
`Action` is one step of one of them or a meeting of two.
-/

namespace FabricSequencer.Kvledger

open Finset

/-- `defaultSmallestBlockNumber`, the value without pending requests. -/
def maxUint64 : ℕ := 2 ^ 64 - 1

/-- `smallestRequest`: the first key of the database, whose order is that of
the numbers. -/
def smallestRequest (pending : Finset ℕ) : ℕ :=
  if hpending : pending.Nonempty then pending.min' hpending else maxUint64

structure SnapshotRequestBookkeeper where
  pending : Finset ℕ
  pending_lt : ∀ request ∈ pending, request < 2 ^ 64
  smallestRequestBlockNum : ℕ
  smallest_eq : smallestRequestBlockNum = smallestRequest pending

variable {pending : Finset ℕ} {request : ℕ}

theorem smallestRequest_le (hr : request ∈ pending) : smallestRequest pending ≤ request := by
  unfold smallestRequest
  rw [dif_pos ⟨request, hr⟩]
  exact min'_le pending request hr

theorem smallestRequest_mem (hne : smallestRequest pending ≠ maxUint64) :
    smallestRequest pending ∈ pending := by
  unfold smallestRequest at hne ⊢
  split_ifs at hne ⊢ with hpend
  · exact min'_mem pending hpend
  · exact absurd rfl hne

theorem smallestRequest_eq_of_least {least : ℕ} (hm : least ∈ pending)
    (hls : ∀ request ∈ pending, least ≤ request) : smallestRequest pending = least := by
  apply le_antisymm (smallestRequest_le hm)
  unfold smallestRequest
  rw [dif_pos ⟨least, hm⟩]
  exact hls _ (min'_mem pending _)

theorem smallestRequest_insert (hr : request < 2 ^ 64) :
    smallestRequest (insert request pending) =
      if request < smallestRequest pending then request
      else smallestRequest pending := by
  rcases pending.eq_empty_or_nonempty with hnil | hpend
  · subst hnil
    simp only [smallestRequest, Finset.not_nonempty_empty, dif_neg, not_false_eq_true,
      insert_empty_eq, Finset.singleton_nonempty, dif_pos, Finset.min'_singleton, maxUint64]
    split_ifs <;> omega
  · have hn : (insert request pending).Nonempty := Finset.insert_nonempty request pending
    simp only [smallestRequest, dif_pos hpend, dif_pos hn, min'_insert request pending hpend]
    split_ifs <;> omega

def newSnapshotRequestBookkeeper (pending : Finset ℕ)
    (hpending : ∀ request ∈ pending, request < 2 ^ 64) :
    SnapshotRequestBookkeeper :=
  ⟨pending, hpending, smallestRequest pending, rfl⟩

namespace SnapshotRequestBookkeeper

variable (k : SnapshotRequestBookkeeper)

def add (blockNumber : ℕ) (hnumber : blockNumber < 2 ^ 64) :
    Except String SnapshotRequestBookkeeper :=
  if blockNumber ∈ k.pending then
    .error ("duplicate snapshot request for block number " ++ toString blockNumber)
  else
    .ok
      { pending := insert blockNumber k.pending
        pending_lt := by
          intro request hrequest
          rcases mem_insert.mp hrequest with rfl | hold
          · exact hnumber
          · exact k.pending_lt request hold
        smallestRequestBlockNum :=
          if blockNumber < k.smallestRequestBlockNum then blockNumber
          else k.smallestRequestBlockNum
        smallest_eq := by
          rw [k.smallest_eq, smallestRequest_insert hnumber] }

theorem smallestRequest_erase_of_ne
    (hm : request ∈ pending) (hne : smallestRequest pending ≠ request) :
    smallestRequest (pending.erase request) = smallestRequest pending := by
  have hls : smallestRequest pending ∈ pending := by
    unfold smallestRequest
    rw [dif_pos ⟨request, hm⟩]
    exact min'_mem pending _
  apply smallestRequest_eq_of_least (mem_erase.mpr ⟨hne, hls⟩)
  intro _ ho
  exact smallestRequest_le (mem_of_mem_erase ho)

def delete (blockNumber : ℕ) : Except String SnapshotRequestBookkeeper :=
  if hmem : blockNumber ∈ k.pending then
    .ok
      { pending := k.pending.erase blockNumber
        pending_lt := fun request hrequest =>
          k.pending_lt request (mem_of_mem_erase hrequest)
        smallestRequestBlockNum :=
          if k.smallestRequestBlockNum ≠ blockNumber then
            k.smallestRequestBlockNum
          else smallestRequest (k.pending.erase blockNumber)
        smallest_eq := by
          split_ifs with hsmallest
          · rw [k.smallest_eq] at hsmallest ⊢
            exact (smallestRequest_erase_of_ne hmem hsmallest).symm
          · rfl }
  else
    .error ("no snapshot request exists for block number " ++ toString blockNumber)

end SnapshotRequestBookkeeper

inductive NextBlockCommitStatus where
  | idle
  | blocked
  | inProcess
deriving DecidableEq

/-- The events of the loop; the shutdown event belongs to closing a ledger. -/
inductive Event where
  | commitStart (blockNumber : ℕ)
  | commitDone (blockNumber : ℕ)
  | requestAdd (blockNumber : ℕ)
  | requestCancel (blockNumber : ℕ)
  | snapshotDone (blockNumber : ℕ)

structure Processor where
  committerStatus : NextBlockCommitStatus
  snapshotInProgress : Bool
  lastCommittedBlockNumber : ℕ
  bookkeeper : SnapshotRequestBookkeeper

inductive Send where
  | commitProceed
  | requestResponse (err : Option String)
deriving DecidableEq

inductive Report where
  | lastCommitted
  | requested (blockNumber : ℕ)

structure Reaction where
  processor : Processor
  generate : Option Report
  send : Option Send

def refuse (p : Processor) (err : String) : Reaction :=
  ⟨p, none, some (.requestResponse (some err))⟩

def Processor.leastAcceptableBlockNum (p : Processor) : ℕ :=
  if p.committerStatus ≠ .idle then uint64 (p.lastCommittedBlockNumber + 1)
  else p.lastCommittedBlockNumber

variable (snapshots : Finset ℕ)

/-- The branch of `requestAdd` once block number zero is replaced. -/
def addRequest (p : Processor) (requestedBlockNum : ℕ) : Reaction :=
  if requestedBlockNum < p.leastAcceptableBlockNum then
    refuse p ("requested snapshot for block number " ++ toString requestedBlockNum ++
      " cannot be less than the last committed block number " ++
      toString p.leastAcceptableBlockNum)
  else if requestedBlockNum = p.lastCommittedBlockNumber ∧ requestedBlockNum ∈ snapshots then
    refuse p ("snapshot already generated for block number " ++ toString requestedBlockNum)
  else
    match p.bookkeeper.add (uint64 requestedBlockNum) (uint64_lt _) with
    | .error err => refuse p err
    | .ok bookkeeper =>
      if p.committerStatus = .idle ∧ requestedBlockNum = p.lastCommittedBlockNumber then
        ⟨{ p with bookkeeper, snapshotInProgress := true },
          some (.requested requestedBlockNum), some (.requestResponse none)⟩
      else
        ⟨{ p with bookkeeper }, none, some (.requestResponse none)⟩

def requestAdd (p : Processor) (blockNumber : ℕ) : Reaction :=
  addRequest snapshots p (if blockNumber = 0 then p.leastAcceptableBlockNum else blockNumber)

/-- One turn of `processSnapshotMgmtEvents`. -/
def processSnapshotMgmtEvent (p : Processor) : Event → Reaction
  | .commitStart _ =>
    if p.snapshotInProgress then
      ⟨{ p with committerStatus := .blocked }, none, none⟩
    else
      ⟨{ p with committerStatus := .inProcess }, none, some .commitProceed⟩
  | .commitDone blockNumber =>
    let p :=
      { p with
        lastCommittedBlockNumber := blockNumber
        committerStatus := .idle }
    if blockNumber ≠ p.bookkeeper.smallestRequestBlockNum then
      ⟨p, none, none⟩
    else ⟨{ p with snapshotInProgress := true }, some .lastCommitted, none⟩
  | .snapshotDone blockNumber =>
    -- a failed deletion is only logged
    let bookkeeper :=
      match p.bookkeeper.delete blockNumber with
      | .ok bookkeeper => bookkeeper
      | .error _ => p.bookkeeper
    if p.committerStatus = .blocked then
      ⟨{ p with
          bookkeeper
          committerStatus := .inProcess
          snapshotInProgress := false }, none, some .commitProceed⟩
    else ⟨{ p with bookkeeper, snapshotInProgress := false }, none, none⟩
  | .requestAdd blockNumber => requestAdd snapshots p blockNumber
  | .requestCancel blockNumber =>
    if p.snapshotInProgress ∧ blockNumber = p.lastCommittedBlockNumber then
      refuse p "cannot cancel the snapshot request because it is under processing"
    else
      match p.bookkeeper.delete blockNumber with
      | .error err => refuse p err
      | .ok bookkeeper => ⟨{ p with bookkeeper }, none, some (.requestResponse none)⟩

/-! ## The goroutines -/

inductive Committer where
  | idle
  | sendingStart (blockNumber : ℕ)
  | waiting (blockNumber : ℕ)
  | committing (blockNumber : ℕ)
  | sendingDone (blockNumber : ℕ)

inductive Request where
  | submit (blockNumber : ℕ)
  | cancel (blockNumber : ℕ)

def Request.event : Request → Event
  | .submit blockNumber => .requestAdd (uint64 blockNumber)
  | .cancel blockNumber => .requestCancel (uint64 blockNumber)

/-- A goroutine in `SubmitSnapshotRequest` or `CancelSnapshotRequest`. -/
inductive Caller where
  | absent
  | sending (request : Request)
  | waiting (request : Request)
  | returned (request : Request) (err : Option String)

inductive Generator where
  | running (report : Report)
  | sending (blockNumber : ℕ)

def Generator.isRunning : Generator → Bool
  | .running _ => true
  | .sending _ => false

structure World where
  height : ℕ
  height_lt : height < 2 ^ 64
  /-- The blocks with a snapshot directory. -/
  snapshots : Finset ℕ
  processor : Processor
  outbox : Option Send
  committer : Committer
  callers : ℕ → Caller
  generators : List Generator
  /-- History: the response computed for the request of each caller. -/
  computed : ℕ → Option (Option String)
  /-- History: the requests for which generation was attempted since they were
  accepted. -/
  attempted : Finset ℕ

/-- The loop receives an event of `caller`, if one sent it. -/
def World.receive (world : World) (caller : Option ℕ) (event : Event) : World :=
  let reaction := processSnapshotMgmtEvent world.snapshots world.processor event
  let accepted := reaction.processor.bookkeeper.pending \ world.processor.bookkeeper.pending
  { world with
    processor := reaction.processor
    outbox := reaction.send
    generators := world.generators ++ (reaction.generate.map Generator.running).toList
    computed :=
      match caller, reaction.send with
      | some index, some (.requestResponse err) => Function.update world.computed index (some err)
      | _, _ => world.computed
    attempted := (world.attempted \ accepted) ∪
      (if reaction.generate.isSome then
        {reaction.processor.lastCommittedBlockNumber} else ∅) }

/-- `initSnapshotMgr`, with `regenrateMissedSnapshot`, on what is stored. -/
def initSnapshotMgr (height : ℕ) (hheight : height < 2 ^ 64) (pending : Finset ℕ)
    (hpending : ∀ request ∈ pending, request < 2 ^ 64) (snapshots attempted : Finset ℕ) : World :=
  let lastCommittedBlock := uint64 (height + maxUint64)
  let world : World :=
    { height := height
      height_lt := hheight
      snapshots := snapshots
      processor := ⟨.idle, false, lastCommittedBlock, newSnapshotRequestBookkeeper pending hpending⟩
      outbox := none
      committer := .idle
      callers := fun _ => .absent
      generators := []
      computed := fun _ => none
      attempted := attempted }
  if height ≠ 0 ∧ lastCommittedBlock = smallestRequest pending ∧ lastCommittedBlock ∉ snapshots then
    world.receive none (.commitDone lastCommittedBlock)
  else world

inductive Action where
  | commitLegacy (blockNumber : ℕ)
  | sendCommitStart
  | receiveProceed
  /-- `commit` returns an error before the block is stored. -/
  | commitFails
  | commitSucceeds
  | sendCommitDone
  | call (caller : ℕ) (request : Request)
  | sendRequest (caller : ℕ)
  | receiveResponse (caller : ℕ)
  /-- The directory of a snapshot gets its final name. -/
  | publish (generator : ℕ)
  /-- `generateSnapshot` returns, with an error or without. -/
  | finish (generator : ℕ)
  | sendSnapshotDone (generator : ℕ)
  /-- The process crashes and the ledger is opened again. -/
  | restart

def Report.blockNumber (report : Report) (p : Processor) : ℕ :=
  match report with
  | .lastCommitted => p.lastCommittedBlockNumber
  | .requested blockNumber => blockNumber

/-- One action, or nothing where it is not enabled.  The loop receives only
when it has nothing left to send. -/
def World.step (world : World) : Action → Option World
  | .commitLegacy blockNumber =>
    match world.committer with
    | .idle => some { world with committer := .sendingStart (uint64 blockNumber) }
    | _ => none
  | .sendCommitStart =>
    match world.committer, world.outbox with
    | .sendingStart blockNumber, none =>
      some
        { world.receive none (.commitStart blockNumber) with
          committer := .waiting blockNumber }
    | _, _ => none
  | .receiveProceed =>
    match world.committer, world.outbox with
    | .waiting blockNumber, some .commitProceed =>
      some
        { world with
          committer := .committing blockNumber
          outbox := none }
    | _, _ => none
  | .commitFails =>
    match world.committer with
    | .committing _ => some { world with committer := .idle }
    | _ => none
  | .commitSucceeds =>
    match world.committer with
    | .committing blockNumber =>
      -- the block store takes the next block only
      if blockNumber = world.height then
        some
          { world with
            committer := .sendingDone blockNumber
            height := uint64 (world.height + 1)
            height_lt := uint64_lt _ }
      else none
    | _ => none
  | .sendCommitDone =>
    match world.committer, world.outbox with
    | .sendingDone blockNumber, none =>
      some
        { world.receive none (.commitDone blockNumber) with
          committer := .idle }
    | _, _ => none
  | .call index request =>
    match world.callers index with
    | .absent =>
      some
        { world with
          callers := Function.update world.callers index (.sending request) }
    | _ => none
  | .sendRequest index =>
    match world.callers index, world.outbox with
    | .sending request, none =>
      some
        { world.receive (some index) request.event with
          callers := Function.update world.callers index (.waiting request) }
    | _, _ => none
  | .receiveResponse index =>
    match world.callers index, world.outbox with
    | .waiting request, some (.requestResponse err) =>
      some
        { world with
          callers := Function.update world.callers index (.returned request err)
          outbox := none }
    | _, _ => none
  | .publish index =>
    match world.generators[index]? with
    | some (.running _) =>
      some
        { world with
          snapshots := insert (uint64 (world.height + maxUint64)) world.snapshots }
    | _ => none
  | .finish index =>
    match world.generators[index]? with
    | some (.running report) =>
      some
        { world with
          generators := world.generators.set index (.sending (report.blockNumber world.processor)) }
    | _ => none
  | .sendSnapshotDone index =>
    match world.generators[index]?, world.outbox with
    | some (.sending blockNumber), none =>
      some
        ({ world with generators := world.generators.eraseIdx index }.receive
          none (.snapshotDone blockNumber))
    | _, _ => none
  | .restart =>
    some (initSnapshotMgr world.height world.height_lt world.processor.bookkeeper.pending
      world.processor.bookkeeper.pending_lt world.snapshots world.attempted)

inductive World.Steps (world : World) : Action → World → Prop
  | commitLegacy (blockNumber : ℕ) (hcommitter : world.committer = .idle) :
      world.Steps (.commitLegacy blockNumber)
        { world with committer := .sendingStart (uint64 blockNumber) }
  | sendCommitStart (blockNumber : ℕ) (hcommitter : world.committer = .sendingStart blockNumber)
      (houtbox : world.outbox = none) :
      world.Steps .sendCommitStart
        { world.receive none (.commitStart blockNumber) with
          committer := .waiting blockNumber }
  | receiveProceed (blockNumber : ℕ) (hcommitter : world.committer = .waiting blockNumber)
      (houtbox : world.outbox = some .commitProceed) :
      world.Steps .receiveProceed
        { world with
          committer := .committing blockNumber
          outbox := none }
  | commitFails (blockNumber : ℕ) (hcommitter : world.committer = .committing blockNumber) :
      world.Steps .commitFails { world with committer := .idle }
  | commitSucceeds (blockNumber : ℕ) (hcommitter : world.committer = .committing blockNumber)
      (hnext : blockNumber = world.height) :
      world.Steps .commitSucceeds
        { world with
          committer := .sendingDone blockNumber
          height := uint64 (world.height + 1)
          height_lt := uint64_lt _ }
  | sendCommitDone (blockNumber : ℕ) (hcommitter : world.committer = .sendingDone blockNumber)
      (houtbox : world.outbox = none) :
      world.Steps .sendCommitDone
        { world.receive none (.commitDone blockNumber) with
          committer := .idle }
  | call (index : ℕ) (request : Request) (hcaller : world.callers index = .absent) :
      world.Steps (.call index request)
        { world with
          callers := Function.update world.callers index (.sending request) }
  | sendRequest (index : ℕ) (request : Request) (hcaller : world.callers index = .sending request)
      (houtbox : world.outbox = none) :
      world.Steps (.sendRequest index)
        { world.receive (some index) request.event with
          callers := Function.update world.callers index (.waiting request) }
  | receiveResponse (index : ℕ) (request : Request) (err : Option String)
      (hcaller : world.callers index = .waiting request)
      (houtbox : world.outbox = some (.requestResponse err)) :
      world.Steps (.receiveResponse index)
        { world with
          callers := Function.update world.callers index (.returned request err)
          outbox := none }
  | publish (index : ℕ) (report : Report)
      (hgenerator : world.generators[index]? = some (.running report)) :
      world.Steps (.publish index)
        { world with
          snapshots := insert (uint64 (world.height + maxUint64)) world.snapshots }
  | finish (index : ℕ) (report : Report)
      (hgenerator : world.generators[index]? = some (.running report)) :
      world.Steps (.finish index)
        { world with
          generators := world.generators.set index (.sending (report.blockNumber world.processor)) }
  | sendSnapshotDone (index blockNumber : ℕ)
      (hgenerator : world.generators[index]? = some (.sending blockNumber))
      (houtbox : world.outbox = none) :
      world.Steps (.sendSnapshotDone index)
        ({ world with generators := world.generators.eraseIdx index }.receive
          none (.snapshotDone blockNumber))
  | restart :
      world.Steps .restart
        (initSnapshotMgr world.height world.height_lt world.processor.bookkeeper.pending
          world.processor.bookkeeper.pending_lt world.snapshots
          world.attempted)

variable {w after : World}

theorem World.steps_of_step {action : Action}
    (hstep : w.step action = some after) : w.Steps action after := by
  cases action with
  | commitSucceeds =>
    dsimp only [World.step] at hstep
    split at hstep
    · split_ifs at hstep with hnext
      cases hstep
      exact .commitSucceeds _ ‹_› hnext
    · cases hstep
  | restart =>
    cases hstep
    exact .restart
  -- an action that is not enabled has no successor
  | commitLegacy | sendCommitStart | receiveProceed | commitFails | sendCommitDone | call
  | sendRequest | receiveResponse | publish | finish | sendSnapshotDone =>
    dsimp only [World.step] at hstep
    split at hstep
    · cases hstep
      constructor <;> assumption
    · cases hstep

def World.run : World → List Action → Option World
  | world, [] => some world
  | world, action :: actions => (world.step action).bind fun after => after.run actions

theorem World.run_append (w : World) (first second : List Action) :
    w.run (first ++ second) = (w.run first).bind fun after => after.run second := by
  induction first generalizing w with
  | nil => rfl
  | cons action _ ih =>
    simp only [List.cons_append, World.run]
    cases w.step action with
    | none => rfl
    | some after => exact ih after

theorem World.run_invariant (holds : World → Prop) {allowed : Action → Prop}
    (hstep : ∀ {w after : World} {action : Action}, allowed action →
      holds w → w.step action = some after → holds after) {actions : List Action}
    (halw : ∀ action ∈ actions, allowed action) (hw : holds w)
    (hr : w.run actions = some after) : holds after := by
  induction actions generalizing w with
  | nil =>
    cases hr
    exact hw
  | cons action _ ih =>
    obtain ⟨_, hnx, hrs⟩ := Option.bind_eq_some_iff.mp hr
    exact ih (fun lt hl => halw lt (List.mem_cons_of_mem _ hl))
      (hstep (halw action List.mem_cons_self) hw hnx) hrs

end FabricSequencer.Kvledger
