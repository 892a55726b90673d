import FabricSequencer.BlockVerification
import FabricSequencer.ListHistory

/-!
# The payloads buffer of gossip

Payloads arrive in any order and are put into a buffer under their sequence
numbers.  `deliverPayloads` pops them in order, decodes each and commits its
block.  `Pop` moves the buffer to the next number before the payload is
decoded, so a payload that cannot be decoded is dropped and its number is not
asked for again.

`StoreBlock` validates a block before it compares its number and the hash in it
with the ledger.  What validation makes of the contents is given, and so are
the decoders; the private-data store is in step with the block store.
-/

namespace FabricSequencer.GossipState

open Blockwriter (BlockHeader)

structure Payload where
  seqNum : ℕ
  data : Bytes
  privateData : Option (List Bytes)
deriving DecidableEq

structure RawBlock where
  header : Option BlockHeader
  data : Option (List Bytes)

/-- An error of `StoreBlock` ends the loop or the peer. -/
inductive StoreResult where
  | ok
  | executionFailure (err : String)
  | failure (err : String)

/-- A peer whose ledger has this height and this hash of its last block.
`validate` is what `StoreBlock` does before the block is stored, after the
payloads stored so far. -/
structure Peer where
  height : ℕ
  lastHash : Bytes
  unmarshalBlock : Bytes → Except String RawBlock
  unmarshalPvtData : List Bytes → Except String Unit
  blockHeaderHash : BlockHeader → Bytes
  validate : List Payload → Payload → StoreResult

variable (peer : Peer)

/-- The decoding in `deliverPayloads`; the error is the text of the log. -/
def decode (payload : Payload) : Except String BlockHeader :=
  match peer.unmarshalBlock payload.data with
  | .error err =>
    .error ("Error getting block with seqNum = " ++
      toString payload.seqNum ++ " due to (" ++ err ++ ")...dropping block")
  | .ok rawBlock =>
    match rawBlock.data, rawBlock.header with
    | some _, some header =>
      match payload.privateData.elim (.ok ()) peer.unmarshalPvtData with
      | .error err =>
        .error ("Wasn't able to unmarshal private data for block " ++
          "seqNum = " ++ toString payload.seqNum ++ " due to (" ++ err ++
          ")...dropping block")
      | .ok () => .ok header
    | _, _ =>
      .error ("Block with claimed sequence " ++ toString payload.seqNum ++ " has no header or data")

/-- `PayloadsBufferImpl`.  A payload is stored under its own sequence number,
so the map is a list of payloads; the channel holds at most one signal. -/
structure PayloadsBuffer where
  next : ℕ
  buf : List Payload
  ready : Bool

namespace PayloadsBuffer

variable (b : PayloadsBuffer)

def get (seqNum : ℕ) : Option Payload :=
  b.buf.find? fun payload => payload.seqNum = seqNum

def push (payload : Payload) : PayloadsBuffer :=
  if payload.seqNum < b.next ∨ (b.get payload.seqNum).isSome then b
  else
    { b with
      buf := payload :: b.buf
      ready := b.ready || payload.seqNum = b.next }

def drainReadChannel : PayloadsBuffer :=
  if b.buf.length = 0 then { b with ready := false } else b

def pop : Option Payload × PayloadsBuffer :=
  match b.get b.next with
  | none => (none, b)
  | some payload =>
    (some payload,
      { b with
        next := uint64 (b.next + 1)
        buf := b.buf.filter fun other => other.seqNum ≠ b.next
        }.drainReadChannel)

@[simp]
theorem push_next (pay : Payload) : (b.push pay).next = b.next := by
  unfold push
  split_ifs <;> rfl

@[simp]
theorem drainReadChannel_next : b.drainReadChannel.next = b.next := by
  unfold drainReadChannel
  split_ifs <;> rfl

variable {b after : PayloadsBuffer}

theorem pop_eq_some {pay : Payload} (hp : b.pop = (some pay, after)) :
    pay.seqNum = b.next ∧ after.next = uint64 (b.next + 1) := by
  unfold pop at hp
  cases hg : b.get b.next with
  | none =>
    rw [hg] at hp
    cases hp
  | some =>
    rw [hg] at hp
    cases hp
    have hfn := List.find?_some hg
    refine ⟨of_decide_eq_true hfn, ?_⟩
    rw [drainReadChannel_next]

theorem pop_eq_none (hp : b.pop = (none, after)) : after = b := by
  unfold pop at hp
  cases hg : b.get b.next with
  | none =>
    rw [hg] at hp
    cases hp
    rfl
  | some =>
    rw [hg] at hp
    cases hp

end PayloadsBuffer

inductive Loop where
  | waiting
  | popping
  | holding (payload : Payload)
  | returned
  | panicked (text : String)
deriving DecidableEq

inductive Event where
  | push (payload : Payload)
  | ready
  | pop
  | commit (answer : StoreResult)
  | stop

/-- `processed` has the payloads that went through the body of the loop,
`commits` the calls of `commitBlock` and `stored` those that returned no
error. -/
structure State where
  payloads : PayloadsBuffer
  loop : Loop
  stored : List (Payload × BlockHeader)
  processed : List Payload
  commits : List (Payload × BlockHeader)

def start : State where
  payloads := { next := uint64 peer.height, buf := [], ready := false }
  loop := .waiting
  stored := []
  processed := []
  commits := []

def currentBlockHash (stored : List (Payload × BlockHeader)) : Bytes :=
  match stored.getLast? with
  | none => peer.lastHash
  | some block => peer.blockHeaderHash block.2

/-- `StoreBlock`.  The answer is the error of a store that fails on its own. -/
def storeBlock (stored : List (Payload × BlockHeader)) (payload : Payload)
    (header : BlockHeader) (answer : StoreResult) : StoreResult :=
  let ledgerHeight := uint64 (peer.height + stored.length)
  match answer, peer.validate (stored.map Prod.fst) payload with
  | .ok, .ok =>
    if header.number ≠ ledgerHeight then
      .failure ("commit failed: expected block number=" ++ toString ledgerHeight ++
        ", received block number=" ++ toString header.number)
    else if header.previousHash ≠ currentBlockHash peer stored then
      .failure ("commit failed: unexpected Previous block hash. Expected PreviousHash = [" ++
        Deliverclient.hexEncode (currentBlockHash peer stored) ++
        "], PreviousHash referred in the latest block= [" ++
        Deliverclient.hexEncode header.previousHash ++ "]")
    else .ok
  | .ok, refused => refused
  | failed, _ => failed

namespace State

variable (s : State)

def attempt (payload : Payload) (header : BlockHeader) : State :=
  { s with
    processed := s.processed ++ [payload]
    commits := s.commits ++ [(payload, header)] }

/-- The body of the loop, for a payload that was popped. -/
def deliver (payload : Payload) (answer : StoreResult) : State :=
  match decode peer payload with
  | .error _ =>
    { s with loop := .popping, processed := s.processed ++ [payload] }
  | .ok header =>
    match storeBlock peer s.stored payload header answer with
    | .ok =>
      { s.attempt payload header with
        loop := .popping
        stored := s.stored ++ [(payload, header)] }
    | .executionFailure _ =>
      { s.attempt payload header with loop := .returned }
    | .failure err =>
      { s.attempt payload header with
        loop := .panicked ("Cannot commit block to the ledger due to " ++ err) }

def step : Event → State
  | .push payload => { s with payloads := s.payloads.push payload }
  | .ready =>
    if s.loop = .waiting ∧ s.payloads.ready then
      { s with
        loop := .popping
        payloads := { s.payloads with ready := false } }
    else s
  | .pop =>
    if s.loop = .popping then
      match s.payloads.pop with
      | (none, payloads) => { s with loop := .waiting, payloads := payloads }
      | (some payload, payloads) =>
        { s with loop := .holding payload, payloads := payloads }
    else s
  | .commit answer =>
    match s.loop with
    | .holding payload => s.deliver peer payload answer
    | _ => s
  | .stop => if s.loop = .waiting then { s with loop := .returned } else s

def run (events : List Event) : State := events.foldl (step peer) s

end State

open ListHistory List

/-! ## The blocks of the payloads -/

def blockOf (payload : Payload) : Option (Payload × BlockHeader) :=
  (decode peer payload).toOption.map (payload, ·)

variable (payloads : List Payload)

/-- The payloads that can be decoded, with the headers of their blocks. -/
def blocks : List (Payload × BlockHeader) := payloads.filterMap (blockOf peer)

def dropped : ℕ := payloads.countP fun payload => (blockOf peer payload).isNone

/-- The blocks passed to `commitBlock` have consecutive numbers from this
height, and so do their payloads. -/
def InOrder (height : ℕ) (commits : List (Payload × BlockHeader)) : Prop :=
  ForallWithPast (fun before commit =>
      commit.1.seqNum = uint64 (height + before.length) ∧
        commit.2.number = uint64 (height + before.length))
    commits

def Popped (height : ℕ) (payloads : List Payload) : Prop :=
  ForallWithPast (fun before payload => payload.seqNum = uint64 (height + before.length)) payloads

/-- No block follows a dropped payload (but 2^64 of them), and each block has
the number its payload claims. -/
def NothingMissing : Prop :=
  ForallWithPast
    (fun before payload => ∀ header, decode peer payload = .ok header →
      2 ^ 64 ∣ dropped peer before ∧ header.number = payload.seqNum)
    payloads

/-- No block fails validation, and each that passes it carries the hash of the
block before it. -/
def Linked : Prop :=
  ForallWithPast
    (fun before payload => ∀ header, decode peer payload = .ok header →
      let stored := blocks peer before
      (∀ err, peer.validate (stored.map Prod.fst) payload ≠ .failure err) ∧
        (peer.validate (stored.map Prod.fst) payload = .ok →
          header.previousHash = currentBlockHash peer stored))
    payloads

/-- `StoreBlock` does not refuse the payload after those before it. -/
def Taken (before : List Payload) (payload : Payload) : Prop :=
  ∀ header, decode peer payload = .ok header →
    ∀ err, storeBlock peer (blocks peer before) payload header .ok ≠ .failure err

variable {peer} {payloads : List Payload} {payload : Payload} {header : BlockHeader}

theorem blockOf_of_ok (hdecode : decode peer payload = .ok header) :
    blockOf peer payload = some (payload, header) := by
  rw [blockOf, hdecode]
  rfl

theorem blockOf_of_error {err : String} (hdecode : decode peer payload = .error err) :
    blockOf peer payload = none := by
  rw [blockOf, hdecode]
  rfl

theorem blocks_concat_of_ok (hdecode : decode peer payload = .ok header) :
    blocks peer (payloads ++ [payload]) = blocks peer payloads ++ [(payload, header)] := by
  simp [blocks, blockOf_of_ok hdecode]

theorem blocks_concat_of_error {err : String} (hdecode : decode peer payload = .error err) :
    blocks peer (payloads ++ [payload]) = blocks peer payloads := by
  simp [blocks, blockOf_of_error hdecode]

theorem length_blocks_add_dropped (peer : Peer) (payloads : List Payload) :
    (blocks peer payloads).length + dropped peer payloads = payloads.length := by
  induction payloads with
  | nil => rfl
  | cons payload _ ih =>
    unfold blocks dropped at ih ⊢
    cases hblock : blockOf peer payload with
    | none => simp [hblock, ← ih, add_assoc]
    | some =>
      simp only [filterMap_cons, hblock, length_cons,
        countP_cons, Option.isNone_some, Bool.false_eq_true, if_false]
      omega

theorem inOrder_blocks_iff {height : ℕ} (hpopped : Popped height payloads) :
    InOrder height (blocks peer payloads) ↔ NothingMissing peer payloads := by
  induction payloads using List.reverseRecOn with
  | nil => exact iff_of_true (forallWithPast_nil _) (forallWithPast_nil _)
  | append_singleton payloads payload ih =>
    obtain ⟨hbefore, hseqNum⟩ := forallWithPast_concat_iff.mp hpopped
    have hprevious := ih hbefore
    unfold NothingMissing at hprevious ⊢
    rw [forallWithPast_concat_iff]
    cases hdecode : decode peer payload with
    | error => simpa [blocks_concat_of_error hdecode] using hprevious
    | ok header =>
      unfold InOrder at hprevious ⊢
      rw [blocks_concat_of_ok hdecode, forallWithPast_concat_iff, hprevious]
      apply and_congr_right'
      have hclaimed : payload.seqNum =
          uint64 (height + (blocks peer payloads).length + dropped peer payloads) := by
        rw [add_assoc, length_blocks_add_dropped]
        exact hseqNum
      constructor
      · rintro ⟨hexpected, hnumber⟩ _ hsame
        cases hsame
        refine ⟨uint64_add_eq_iff.mp (hclaimed.symm.trans hexpected), ?_⟩
        exact hnumber.trans hexpected.symm
      · intro hall
        obtain ⟨hdropped, hnumber⟩ := hall header rfl
        rw [uint64_add_eq_iff.mpr hdropped] at hclaimed
        exact ⟨hclaimed, hnumber.trans hclaimed⟩

theorem storeBlock_takes_iff {stored : List (Payload × BlockHeader)}
    (hnumber : header.number = uint64 (peer.height + stored.length)) :
    (∀ err, storeBlock peer stored payload header .ok ≠ .failure err) ↔
      (∀ err, peer.validate (stored.map Prod.fst) payload ≠ .failure err) ∧
        (peer.validate (stored.map Prod.fst) payload = .ok →
          header.previousHash = currentBlockHash peer stored) := by
  unfold storeBlock
  cases peer.validate (stored.map Prod.fst) payload with
  | ok =>
    by_cases hlinked : header.previousHash = currentBlockHash peer stored <;>
      simp [hnumber, hlinked]
  | executionFailure | failure => simp

theorem taken_iff_linked (horder : InOrder peer.height (blocks peer payloads)) :
    ForallWithPast (Taken peer) payloads ↔ Linked peer payloads := by
  have hat : ∀ before payload after header, payloads = before ++ payload :: after →
      decode peer payload = .ok header →
        header.number = uint64 (peer.height + (blocks peer before).length) := by
    rintro before payload after header rfl hdecode
    have hblocks : blocks peer (before ++ payload :: after) =
        blocks peer before ++ (payload, header) :: blocks peer after := by
      simp [blocks, blockOf_of_ok hdecode]
    exact (horder _ _ _ hblocks).2
  unfold ForallWithPast Linked Taken
  constructor
  · intro htaken before payload after hsplit header hdecode
    exact (storeBlock_takes_iff (hat _ _ _ _ hsplit hdecode)).mp
      (htaken before payload after hsplit header hdecode)
  · intro hlinked before payload after hsplit header hdecode
    exact (storeBlock_takes_iff (hat _ _ _ _ hsplit hdecode)).mpr
      (hlinked before payload after hsplit header hdecode)

/-! ## Runs -/

namespace State

def held : Loop → List Payload
  | .holding payload => [payload]
  | _ => []

/-- The loop goes on.  Unless a store fails on its own, it has not panicked if
and only if all blocks were taken. -/
structure Delivered (peer : Peer) (faulty : Prop) (s : State) : Prop where
  next : s.payloads.next = uint64 (peer.height + (s.processed ++ held s.loop).length)
  popped : Popped peer.height (s.processed ++ held s.loop)
  commits : s.commits = blocks peer s.processed
  stored : (∀ text, s.loop ≠ .panicked text) → s.loop ≠ .returned → s.stored = s.commits
  panic : ¬ faulty →
    ((∃ text, s.loop = .panicked text) ↔ ¬ ForallWithPast (Taken peer) s.processed)

variable {faulty : Prop} {s : State}

section Step

variable (hdelivered : Delivered peer faulty s)

include hdelivered

variable {buffer : PayloadsBuffer}

theorem Delivered.withPayloads (hnext : buffer.next = s.payloads.next) :
    Delivered peer faulty { s with payloads := buffer } :=
  { hdelivered with next := hnext.trans hdelivered.next }

theorem Delivered.withLoop {loop : Loop} (hold : s.loop = .waiting ∨ s.loop = .popping)
    (hheld : held loop = []) (hloop : ∀ text, loop ≠ .panicked text) :
    Delivered peer faulty { s with loop := loop } := by
  have hnone : held s.loop = [] := by
    rcases hold with hold | hold <;> rw [hold] <;> rfl
  have hrunning : (∀ text, s.loop ≠ .panicked text) ∧ s.loop ≠ .returned := by
    rcases hold with hold | hold <;> simp [hold]
  constructor
  · rw [hheld, ← hnone]
    exact hdelivered.next
  · rw [hheld, ← hnone]
    exact hdelivered.popped
  · exact hdelivered.commits
  · exact fun _ _ => hdelivered.stored hrunning.1 hrunning.2
  · intro hfault
    rw [← hdelivered.panic hfault]
    simp [hloop, hrunning.1]

theorem Delivered.pop (hloop : s.loop = .popping) (hpop : s.payloads.pop = (some payload, buffer)) :
    Delivered peer faulty { s with loop := .holding payload, payloads := buffer } := by
  obtain ⟨hseqNum, hnext⟩ := PayloadsBuffer.pop_eq_some hpop
  have hexpected := hdelivered.next
  have hpopped := hdelivered.popped
  simp only [hloop, held, append_nil] at hexpected hpopped
  constructor
  · dsimp only
    rw [hnext, hexpected, held, length_append, length_singleton]
    simp only [uint64, Nat.mod_add_mod, add_assoc]
  · exact forallWithPast_concat_iff.mpr ⟨hpopped, hseqNum.trans hexpected⟩
  · exact hdelivered.commits
  · intro _ _
    apply hdelivered.stored <;> simp [hloop]
  · intro hfault
    rw [← hdelivered.panic hfault]
    simp [hloop]

theorem Delivered.finish {s' : State} (hloop : s.loop = .holding payload)
    (hprocessed : s'.processed = s.processed ++ [payload]) (hbuffer : s'.payloads = s.payloads)
    (hheld : held s'.loop = []) (hcommits : s'.commits = blocks peer s'.processed)
    (hstored : (∀ text, s'.loop ≠ .panicked text) → s'.loop ≠ .returned → s'.stored = s'.commits)
    (hpanic : ¬ faulty → ((∃ text, s'.loop = .panicked text) ↔ ¬ Taken peer s.processed payload)) :
    Delivered peer faulty s' := by
  have hnext := hdelivered.next
  have hpopped := hdelivered.popped
  simp only [hloop, held] at hnext hpopped
  constructor
  · rw [hbuffer, hprocessed, hheld, append_nil]
    exact hnext
  · rw [hprocessed, hheld, append_nil]
    exact hpopped
  · exact hcommits
  · exact hstored
  · intro hfault
    have hbefore : ForallWithPast (Taken peer) s.processed := by
      by_contra hnot
      have hold := (hdelivered.panic hfault).mpr hnot
      simp [hloop] at hold
    rw [hprocessed, forallWithPast_concat_iff, hpanic hfault]
    simp [hbefore]

theorem Delivered.deliver (hloop : s.loop = .holding payload) {answer : StoreResult}
    (hanswer : answer ≠ .ok → faulty) : Delivered peer faulty (s.deliver peer payload answer) := by
  have hstored : s.stored = blocks peer s.processed := by
    rw [← hdelivered.commits]
    apply hdelivered.stored <;> simp [hloop]
  unfold State.deliver
  cases hdecode : decode peer payload with
  | error =>
    refine hdelivered.finish hloop rfl rfl rfl ?_ ?_ ?_
    · rw [blocks_concat_of_error hdecode]
      exact hdelivered.commits
    · exact fun _ _ => hstored.trans hdelivered.commits.symm
    · simp [Taken, hdecode]
  | ok header =>
    have hcommits : (s.attempt payload header).commits =
        blocks peer (s.attempt payload header).processed := by
      simp only [attempt, blocks_concat_of_ok hdecode, hdelivered.commits]
    have htaken : ¬ faulty → (Taken peer s.processed payload ↔
        ∀ err, storeBlock peer s.stored payload header answer ≠ .failure err) := by
      intro hfault
      rw [not_imp_comm.mp hanswer hfault, hstored, Taken, hdecode]
      simp
    dsimp only
    cases hstore : storeBlock peer s.stored payload header answer with
    | ok =>
      refine hdelivered.finish hloop rfl rfl rfl hcommits ?_ ?_
      · intro _ _
        simp [attempt, hstored, hdelivered.commits]
      · intro hfault
        simp [htaken hfault, hstore]
    | executionFailure =>
      refine hdelivered.finish hloop rfl rfl rfl hcommits ?_ ?_
      · intro _ hreturned
        exact absurd rfl hreturned
      · intro hfault
        simp [htaken hfault, hstore]
    | failure err =>
      refine hdelivered.finish hloop rfl rfl rfl hcommits ?_ ?_
      · intro hpanicked _
        exact absurd rfl (hpanicked _)
      · intro hfault
        simp [htaken hfault, hstore]

theorem Delivered.step {event : Event}
    (hevent : ∀ answer, event = .commit answer → answer ≠ .ok → faulty) :
    Delivered peer faulty (s.step peer event) := by
  cases event with
  | push => exact hdelivered.withPayloads (PayloadsBuffer.push_next _ _)
  | ready =>
    rw [State.step]
    split_ifs with hready
    · have hwoken : Delivered peer faulty { s with loop := .popping } :=
        hdelivered.withLoop (.inl hready.1) rfl nofun
      exact hwoken.withPayloads rfl
    · exact hdelivered
  | pop =>
    rw [State.step]
    split_ifs with hloop
    · split
      next hpop =>
        rw [PayloadsBuffer.pop_eq_none hpop]
        exact hdelivered.withLoop (.inr hloop) rfl nofun
      next hpop =>
        exact hdelivered.pop hloop hpop
    · exact hdelivered
  | commit answer =>
    rw [State.step]
    split
    next hloop => exact hdelivered.deliver hloop (hevent answer rfl)
    · exact hdelivered
  | stop =>
    rw [State.step]
    split_ifs with hloop
    · exact hdelivered.withLoop (.inl hloop) rfl nofun
    · exact hdelivered

theorem Delivered.run {events : List Event}
    (hevents : ∀ answer, .commit answer ∈ events → answer ≠ .ok → faulty) :
    Delivered peer faulty (s.run peer events) := by
  induction events generalizing s with
  | nil => exact hdelivered
  | cons event _ ih =>
    apply ih
    · apply hdelivered.step
      intro answer hanswer
      exact hevents answer (by simp [hanswer])
    · intro answer hmem
      exact hevents answer (mem_cons_of_mem _ hmem)

end Step

theorem delivered_start (peer : Peer) (faulty : Prop) : Delivered peer faulty (start peer) where
  next := rfl
  popped := forallWithPast_nil _
  commits := rfl
  stored := fun _ _ => rfl
  panic := by
    intro _
    simp [start, forallWithPast_nil]

/-- The blocks are committed in order, and no panic comes from a payload,
exactly when no block is popped after a payload that was dropped, every block
has the number that its payload claims, and the blocks are linked. -/
theorem commits_inOrder_iff (peer : Peer) (events : List Event) :
    let s := (start peer).run peer events
    (InOrder peer.height s.commits ∧
        ((∀ answer, .commit answer ∈ events → answer = .ok) →
          ∀ text, s.loop ≠ .panicked text)) ↔
      NothingMissing peer s.processed ∧
        ((∀ answer, .commit answer ∈ events → answer = .ok) → Linked peer s.processed) := by
  have hdelivered := (delivered_start peer
    (¬ ∀ answer, .commit answer ∈ events → answer = .ok)).run
      (fun answer hmem hanswer hall => hanswer (hall answer hmem))
  dsimp only
  generalize (start peer).run peer events = s at hdelivered
  have hpopped : Popped peer.height s.processed := by
    intro before payload after hsplit
    apply hdelivered.popped before payload (after ++ held s.loop)
    rw [hsplit, append_assoc, cons_append]
  rw [hdelivered.commits, ← inOrder_blocks_iff hpopped]
  apply and_congr_right
  intro horder
  apply imp_congr_right
  intro hall
  have hpanic := hdelivered.panic (not_not.mpr hall)
  rw [← taken_iff_linked horder, ← not_iff_not, ← hpanic]
  simp

/-- A peer at the block 4, for blocks of one byte, their number; no private
data can be read, and every block is valid. -/
def plainPeer : Peer where
  height := 5
  lastHash := []
  unmarshalBlock
    | [number] =>
      .ok { header := some { number := number.val, previousHash := [],
                             dataHash := [] }
            data := some [] }
    | _ => .error "unexpected EOF"
  unmarshalPvtData := fun _ => .error "unexpected EOF"
  blockHeaderHash := fun _ => []
  validate := fun _ _ => .ok

/-- The payload 5 has private data that cannot be read; the payload 6 is
correct. -/
def unreadablePrivateData : List Event :=
  [.push { seqNum := 5, data := [5], privateData := some [[1]] },
    .push { seqNum := 6, data := [6], privateData := none },
    .ready, .pop, .commit .ok, .pop, .commit .ok]

/-- The block 6 is committed to a ledger of height 5. -/
theorem unreadablePrivateData_panics :
    ((start plainPeer).run plainPeer unreadablePrivateData).commits.map (·.2.number) = [6] ∧
      ((start plainPeer).run plainPeer unreadablePrivateData).loop =
        .panicked ("Cannot commit block to the ledger due to " ++
          "commit failed: expected block number=5, received block number=6") ∧
      ¬ InOrder 5 ((start plainPeer).run plainPeer unreadablePrivateData).commits := by
  have hcommits : ((start plainPeer).run plainPeer unreadablePrivateData).commits =
      [({ seqNum := 6, data := [6], privateData := none },
        { number := 6, previousHash := [], dataHash := [] })] := by
    decide
  refine ⟨by decide, by decide, ?_⟩
  intro horder
  rw [hcommits] at horder
  have hnumber := horder [] _ [] rfl
  exact absurd hnumber.2 (by decide)

end State
end FabricSequencer.GossipState
