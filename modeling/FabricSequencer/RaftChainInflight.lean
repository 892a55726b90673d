import FabricSequencer.RaftChainWrites

/-!
# Blocks in flight

The channel to the proposing goroutine has room for `MaxInflightBlocks`
blocks, and the main loop stops taking messages once that many are in flight.
It counts only after a message, though: a batch that waits for the timer is
proposed on top of the limit.  As long as no batch ever waits the channel
never overflows; as soon as one can wait, it can.

Raft is a boundary here.  To a leader that serves requests it hands over, in
order, blocks that the leader's own goroutine has proposed.
-/

namespace FabricSequencer.Etcdraft

open BlockCutter List Chain

section

variable (opts : Options) (support : ChainSupport) (sizes : BatchSize → Prop)

def Delivers (c : Chain) (ready : Ready) : Prop :=
  (c.observe opts ready).soft.lead = opts.raftID →
  (c.observe opts ready).justElected = false →
  newBlocks (c.observe opts ready).appliedIndex ready.entries <+: (c.observe opts ready).proposed

/-- What can happen to a chain whose batch sizes are among `sizes`. -/
def Possible (c : Chain) : Event → Prop
  | .submitted msg => sizes msg.batchSize
  | .ready ready => Delivers opts c ready
  | _ => True

def PossibleRun : Chain → List Event → Prop
  | _, [] => True
  | c, event :: events =>
    Possible opts sizes c event ∧
      ∀ next, c.step opts support event = .ok next → PossibleRun next events

def newChain (lastBlock : Block) (appliedIndex : ℕ) (membership : Membership) : Chain where
  lastBlock := lastBlock
  appliedIndex := appliedIndex
  membership := membership

end

/-- A normal message can be left waiting for the timer. -/
def CanWait (batchSize : BatchSize) : Prop :=
  1 < batchSize.maxMessageCount ∧
    ∃ env : Envelope, isConfig env = .ok false ∧ messageSizeBytes env ≤ batchSize.preferredMaxBytes

/-! ## Turns that do not overflow -/

def Turn.Avoids (good : Chain → Prop) : Turn → Prop
  | .ok c => good c
  | .error halt => halt.panic ≠ .overflow

theorem Turn.Avoids.bind {good lt : Chain → Prop} {turn : Turn}
    {next : Chain → Turn} (htr : turn.Avoids good) (hnx : ∀ c, good c → (next c).Avoids lt) :
    Turn.Avoids lt (turn >>= next) := by
  cases turn with
  | ok c => exact hnx c htr
  | error => exact htr

theorem Turn.Avoids.imp {good better : Chain → Prop} {turn : Turn}
    (htr : turn.Avoids good) (hgd : ∀ c, good c → better c) :
    turn.Avoids better := by
  cases turn with
  | ok c => exact hgd c htr
  | error => exact htr

/-- Nothing that concerns proposals has changed, except that up to `count`
blocks are no longer counted as in flight. -/
structure Settled (count : ℕ) (c next : Chain) : Prop where
  soft : next.soft = c.soft
  propC : next.propC = c.propC
  proposed : next.proposed = c.proposed
  cutter : next.cutter = c.cutter
  ticking : next.ticking = c.ticking
  accepting : next.accepting = c.accepting
  justElected : next.justElected = c.justElected
  inflight_le : next.blockInflight ≤ c.blockInflight
  le_inflight : c.blockInflight ≤ next.blockInflight + count

theorem Settled.refl (c : Chain) : Settled 0 c c :=
  ⟨rfl, rfl, rfl, rfl, rfl, rfl, rfl, le_rfl, le_rfl⟩

theorem Settled.trans {first b : ℕ} {c md next : Chain}
    (hf : Settled first c md) (hs : Settled b md next) : Settled (first + b) c next where
  soft := hs.soft.trans hf.soft
  propC := hs.propC.trans hf.propC
  proposed := hs.proposed.trans hf.proposed
  cutter := hs.cutter.trans hf.cutter
  ticking := hs.ticking.trans hf.ticking
  accepting := hs.accepting.trans hf.accepting
  justElected := hs.justElected.trans hf.justElected
  inflight_le := hs.inflight_le.trans hf.inflight_le
  le_inflight := by
    have := hf.le_inflight
    have := hs.le_inflight
    omega

section Turns

variable {sup : ChainSupport} {c : Chain}

theorem detectConfChange_panic {content : ConfigContent}
    {hl : Stopped} (hr : c.detectConfChange content = .error hl) : hl.panic ≠ .overflow := by
  unfold detectConfChange at hr
  split at hr
  · cases hr
    simp
  · cases hr
  · cases hr
  · cases hr
    simp
  · cases hr
  · split at hr
    · cases hr
      simp
    · cases hr

theorem configureCommOrPanic_avoids {good : Chain → Prop}
    (hgd : good c) : (c.configureCommOrPanic sup).Avoids good := by
  unfold configureCommOrPanic
  split
  · exact nofun
  · exact hgd

theorem writeConfigBlock_avoids (c : Chain) (b : Block) (content : ConfigContent) (i : ℕ) :
    (c.writeConfigBlock sup b content i).Avoids fun next =>
      Settled 0 c next ∧ next.appliedIndex = c.appliedIndex := by
  unfold writeConfigBlock
  split
  · exact nofun
  · dsimp only
    rcases hd : detectConfChange
        { c with configInflight := false } content with halt | configMembership
    · exact detectConfChange_panic hd
    cases configMembership with
    | none => exact ⟨{ Settled.refl c with }, rfl⟩
    | some =>
      simp only [bind, Except.bind]
      split
      · exact ⟨{ Settled.refl c with }, rfl⟩
      · exact configureCommOrPanic_avoids ⟨{ Settled.refl c with }, rfl⟩
  · exact nofun

theorem writeBlock_avoids (c : Chain) (b : Block) (index : ℕ) :
    (c.writeBlock sup b index).Avoids fun next =>
      Settled 1 c next ∧ next.appliedIndex = c.appliedIndex := by
  have hcnt : Settled 1 c
      { c with blockInflight := c.blockInflight - 1, lastBlock := b } :=
    ⟨rfl, rfl, rfl, rfl, rfl, rfl, rfl, Nat.sub_le _ _, by dsimp only; omega⟩
  unfold writeBlock
  dsimp only
  split_ifs with hhigh hlow
  · exact nofun
  · exact ⟨⟨rfl, rfl, rfl, rfl, rfl, rfl, rfl, le_rfl, Nat.le_succ _⟩, rfl⟩
  · split
    · exact (writeConfigBlock_avoids _ _ _ _).imp fun next hnx => ⟨hcnt.trans hnx.1, hnx.2⟩
    · exact ⟨⟨rfl, rfl, rfl, rfl, rfl, rfl, rfl, Nat.sub_le _ _, by dsimp only [write]; omega⟩, rfl⟩

theorem commitBlock_avoids (c : Chain) (b : Block) :
    (c.commitBlock sup b).Avoids (Settled 0 c) := by
  unfold commitBlock
  split
  · exact nofun
  dsimp only
  split
  · exact { Settled.refl c with }
  rename_i content _
  rcases hd : (c.write b).detectConfChange content with halt | configMembership
  · exact detectConfChange_panic hd
  cases configMembership with
  | none => exact { Settled.refl c with }
  | some =>
    simp only [bind, Except.bind]
    split
    · exact configureCommOrPanic_avoids { Settled.refl c with }
    · exact { Settled.refl c with }

theorem pullAll_avoids {start : Chain} {la : ℕ} (pulls : List Pull) {next : ℕ} {buffer : List Block}
    (hs : Settled 0 start c) : (pullAll sup la pulls next buffer c).Avoids (Settled 0 start) := by
  induction pulls generalizing next buffer c with
  | nil =>
    unfold pullAll
    split
    · intro hpn
      cases hpn
    · exact hs
  | cons _ _ ih =>
    unfold pullAll
    split
    · dsimp only
      split
      · intro hpn
        cases hpn
      refine (commitBlock_avoids c _).bind ?_
      intro _ haf
      apply ih
      have htr := hs.trans haf
      exact { htr with }
    · exact hs

theorem catchUp_avoids {start c : Chain} (snap : Snapshot) (hs : Settled 0 start c) :
    (c.catchUp sup snap).Avoids (Settled 0 start) := by
  unfold catchUp
  split
  · exact nofun
  split_ifs with hbehind hnext
  · exact hs
  · refine (commitBlock_avoids c _).bind ?_
    intro _ haf
    have htr := hs.trans haf
    exact { htr with }
  · split
    · exact nofun
    · exact pullAll_avoids _ hs

theorem receiveSnapshot_avoids (c : Chain) (snap : Snapshot) :
    (c.receiveSnapshot sup snap).Avoids (Settled 0 c) := by
  unfold receiveSnapshot
  split_ifs with hidx hbehind
  · exact Settled.refl c
  · exact catchUp_avoids snap { Settled.refl c with }
  · exact catchUp_avoids snap (Settled.refl c)

theorem advance_settled (c : Chain) (index : ℕ) :
    Settled 0 c (c.advance index) ∧ (c.advance index).appliedIndex = max c.appliedIndex index := by
  unfold advance
  split
  next hi =>
    exact ⟨{ Settled.refl c with }, (max_eq_right hi.le).symm⟩
  next =>
    exact ⟨Settled.refl c, (max_eq_left (by omega)).symm⟩

theorem applyEntry_avoids (c : Chain) (e : Entry) : (c.applyEntry sup e).Avoids fun next =>
      ∃ count, Settled count c next ∧ ∀ tl,
        (newBlocks c.appliedIndex (e :: tl)).length =
          count + (newBlocks next.appliedIndex tl).length := by
  obtain ⟨hd, hp⟩ := advance_settled c e.index
  have hsk : e.index ≤ c.appliedIndex → (c.advance e.index).appliedIndex = c.appliedIndex := by
    intro hi
    rw [hp, max_eq_left hi]
  unfold applyEntry
  rcases hdt : e.data with _ | b | _ | change | _ | _
  · exact ⟨0, hd, fun tl => by simp [newBlocks, hdt, hp]⟩
  · dsimp only
    split
    next hi =>
      exact ⟨0, hd, fun tl => by
        simp [newBlocks, hdt, hi, hsk hi]⟩
    rename_i hi
    refine (writeBlock_avoids c b e.index).bind ?_
    rintro written ⟨hwr, heq⟩
    obtain ⟨hla, hm⟩ := advance_settled written e.index
    refine ⟨1, hwr.trans hla, ?_⟩
    intro tl
    rw [hm, heq, max_eq_right (by omega)]
    simp [newBlocks, hdt, hi, add_comm]
  · dsimp only
    split
    next =>
      exact ⟨0, hd, fun tl => by simp [newBlocks, hdt, hp]⟩
    · exact nofun
  · have hf : Settled 0 c (c.finishConfChange change) ∧
        (c.finishConfChange change).appliedIndex = c.appliedIndex := by
      unfold finishConfChange
      split
      · exact ⟨{ Settled.refl c with }, rfl⟩
      · exact ⟨Settled.refl c, rfl⟩
    obtain ⟨hla, hm⟩ := advance_settled (c.finishConfChange change) e.index
    refine ⟨0, hf.1.trans hla, ?_⟩
    intro tl
    rw [hm, hf.2]
    simp [newBlocks, hdt]
  · exact ⟨0, Settled.refl c, fun tl => by simp [newBlocks, hdt]⟩
  · exact nofun

theorem applyEntries_avoids (es : List Entry) (c : Chain) :
    Turn.Avoids (Settled (newBlocks c.appliedIndex es).length c)
      (es.foldlM (applyEntry sup) c) := by
  induction es generalizing c with
  | nil => exact Settled.refl c
  | cons e es ih =>
    rw [foldlM_cons]
    refine (applyEntry_avoids c e).bind ?_
    rintro middle ⟨_, hm, hl⟩
    rw [hl es]
    exact (ih middle).imp fun next hnx => hm.trans hnx

theorem apply_avoids (c : Chain) (es : List Entry) :
    (c.apply sup es).Avoids (Settled (newBlocks c.appliedIndex es).length c) := by
  unfold apply
  split
  · exact Settled.refl c
  · split
    · exact nofun
    · exact applyEntries_avoids _ c

end Turns

/-! ## No batch waits -/

section Bounded

variable {opts : Options} {sup : ChainSupport} {sizes : BatchSize → Prop}

structure Bounded (opts : Options) (c : Chain) : Prop where
  cutter : c.cutter = newReceiverImpl
  ticking : c.ticking = false
  leader : c.soft.lead = opts.raftID → ∃ queue, c.propC = some queue ∧
    queue.length + c.proposed.length ≤ c.blockInflight ∧
    (c.justElected = true → c.blockInflight = 0) ∧
    (c.accepting = true → c.justElected = false ∧ c.blockInflight < opts.maxInflightBlocks)

theorem bounded_newChain (lastBlock : Block) (appliedIndex : ℕ) (mbs : Membership) :
    Bounded opts (newChain lastBlock appliedIndex mbs) where
  cutter := rfl
  ticking := rfl
  leader := fun hld => absurd hld.symm opts.raftID_ne_zero

variable {c : Chain}

theorem ordered_of_cannot_wait (ht : c.cutter = newReceiverImpl)
    {msg : Submission} (hwt : ¬ CanWait msg.batchSize) {r : Ordered} (ho : c.ordered msg = .ok r) :
    r.pending = false ∧ r.cutter = newReceiverImpl ∧ r.batches.length ≤ 1 := by
  unfold ordered at ho
  split at ho
  · cases ho
  · dsimp only at ho
    split at ho
    · cases ho
    split at ho
    · cases ho
      exact ⟨rfl, ht, by simp⟩
    · cases ho
      rw [ht]
      exact ⟨rfl, rfl, by simp [newReceiverImpl, Receiver.cut]⟩
  next hn =>
    dsimp only at ho
    split at ho
    · cases ho
    cases ho
    rw [ht]
    unfold Receiver.ordered
    by_cases hsz : messageSizeBytes msg.payload > msg.batchSize.preferredMaxBytes
    · simp [hsz]
    have hc : msg.batchSize.maxMessageCount ≤ 1 := by
      by_contra hmany
      exact hwt ⟨by omega, msg.payload, hn, by omega⟩
    have hby : ¬ uint32 (newReceiverImpl.pendingBatchSizeBytes + messageSizeBytes msg.payload) >
        msg.batchSize.preferredMaxBytes := by
      have hsm : messageSizeBytes msg.payload < 2 ^ 32 := uint32_lt _
      rw [show newReceiverImpl.pendingBatchSizeBytes = 0 from rfl, zero_add, uint32_of_lt hsm]
      exact hsz
    have hfl : uint32 (newReceiverImpl.enqueue
        msg.payload).pending.length ≥ msg.batchSize.maxMessageCount := by
      simpa [uint32] using hc
    simp only [if_neg hsz, if_neg hby, if_pos hfl]
    exact ⟨trivial, rfl, by simp⟩

theorem propose_avoids {bts : List (List Envelope)}
    (hn : bts.length ≤ 1) {queue : List CreatedBlock} (hqu : c.propC = some queue)
    (hrm : queue.length < opts.maxInflightBlocks) : (propose opts bts c).Avoids fun next =>
      next.soft = c.soft ∧ next.cutter = c.cutter ∧ next.ticking = c.ticking ∧
      next.justElected = c.justElected ∧ next.accepting = c.accepting ∧
      next.proposed = c.proposed ∧
      ∃ added, added ≤ 1 ∧ next.blockInflight = c.blockInflight + added ∧
        ∃ longer, next.propC = some longer ∧ longer.length = queue.length + added := by
  match bts, hn with
  | [], _ => exact ⟨rfl, rfl, rfl, rfl, rfl, rfl, 0, by omega, rfl, queue, hqu, rfl⟩
  | [batch], _ =>
    unfold propose
    split
    · exact nofun
    dsimp only
    rw [hqu]
    dsimp only
    rw [if_pos hrm]
    exact ⟨rfl, rfl, rfl, rfl, rfl, rfl, 1, le_rfl, rfl, _, rfl, by simp⟩

variable (hlimit : 1 ≤ opts.maxInflightBlocks) (hbnd : Bounded opts c)

include hbnd

theorem submit_avoids (hac : c.accepting = true) {msg : Submission}
    (hwt : ¬ CanWait msg.batchSize) : (c.submit opts msg).Avoids (Bounded opts) := by
  unfold submit
  split
  · exact hbnd
  split
  · exact hbnd
  rename_i hld
  rw [not_not] at hld
  obtain ⟨_, hqu, _, _, hlimit⟩ := hbnd.leader hld
  obtain ⟨hs, _⟩ := hlimit hac
  split
  · exact hbnd
  rename_i r ho
  obtain ⟨hpn, hc, hn⟩ := ordered_of_cannot_wait hbnd.cutter hwt ho
  dsimp only
  split
  · exact ⟨hc, hbnd.ticking, hbnd.leader⟩
  refine (propose_avoids hn (c := { c with
    cutter := r.cutter, ticking := r.pending }) hqu
    (by omega)).bind ?_
  rintro next ⟨-, hnx, ht, hjs, -, hpr, ad, ha, hin, longer, hl, hln⟩
  dsimp only at hnx ht hjs hpr hin
  have hrm : longer.length + next.proposed.length ≤ next.blockInflight := by
    rw [hpr]
    omega
  have hp : Bounded opts { next with accepting := false } :=
    ⟨hnx.trans hc, ht.trans hpn, fun _ =>
      ⟨longer, hl, hrm, by simp [hjs, hs], by simp⟩⟩
  split
  · exact hp
  split
  · exact hp
  next =>
    exact ⟨hnx.trans hc, ht.trans hpn,
      fun _ => ⟨longer, hl, hrm, by simp [hjs, hs], fun _ => ⟨hjs.trans hs, by omega⟩⟩⟩

theorem observe_bounded (ready : Ready) : Bounded opts (c.observe opts ready) := by
  unfold observe
  split
  · exact hbnd
  rename_i soft _
  unfold updateSoft
  dsimp only
  split_ifs with heq hled hleads hleads
  · exact ⟨hbnd.cutter, hbnd.ticking, fun hld => hbnd.leader (heq ▸ hld)⟩
  · exact absurd (hleads.trans hled.symm) heq
  · exact ⟨rfl, rfl, fun hld => absurd hld hleads⟩
  · exact ⟨hbnd.cutter, hbnd.ticking, fun _ =>
      ⟨[], rfl, le_rfl, fun _ => rfl, by simp [becomeLeader]⟩⟩
  · exact ⟨hbnd.cutter, hbnd.ticking, fun hld => absurd hld hleads⟩

theorem drain_bounded (accepted : Bool) : Bounded opts (c.drain accepted) := by
  unfold drain
  split
  next tl _ hqu =>
    have hd : ∀ proposed : List ℕ, proposed.length ≤ c.proposed.length + 1 →
        c.soft.lead = opts.raftID → ∃ queue, some tl = some queue ∧
          queue.length + proposed.length ≤ c.blockInflight ∧
          (c.justElected = true → c.blockInflight = 0) ∧
          (c.accepting = true → c.justElected = false ∧
            c.blockInflight < opts.maxInflightBlocks) := by
      intro _ _ hld
      obtain ⟨_, heq, hl, hos⟩ := hbnd.leader hld
      rw [hqu] at heq
      cases heq
      rw [length_cons] at hl
      exact ⟨tl, rfl, by omega, hos⟩
    split <;> exact ⟨hbnd.cutter, hbnd.ticking, hd _ (by simp)⟩
  · exact hbnd

include hlimit

theorem resume_bounded (lastIndex : ℕ) : Bounded opts (c.resume opts lastIndex) := by
  unfold resume
  split_ifs with hc hbehind hcfg hcfg hlt
  · exact hbnd
  · exact hbnd
  · refine ⟨hbnd.cutter, hbnd.ticking, ?_⟩
    intro hld
    obtain ⟨queue, hqu, hl, hno, -⟩ := hbnd.leader hld
    have hzr := hno hc
    exact ⟨queue, hqu, hl, by simp, fun _ =>
      ⟨rfl, by dsimp only; omega⟩⟩
  · refine ⟨hbnd.cutter, hbnd.ticking, ?_⟩
    intro hld
    obtain ⟨queue, hqu, hl, hno, -⟩ := hbnd.leader hld
    exact ⟨queue, hqu, hl, hno, by simp⟩
  · refine ⟨hbnd.cutter, hbnd.ticking, ?_⟩
    intro hld
    obtain ⟨queue, hqu, hl, hno, -⟩ := hbnd.leader hld
    exact ⟨queue, hqu, hl, hno, fun _ =>
      ⟨by simpa using hc, hlt⟩⟩
  · exact hbnd

theorem receiveReady_avoids {ready : Ready} (hdl : Delivers opts c ready) :
    (c.receiveReady opts sup ready).Avoids (Bounded opts) := by
  unfold receiveReady
  dsimp only
  have hob := observe_bounded hbnd ready
  unfold Delivers at hdl
  generalize c.observe opts ready = observed at hob hdl ⊢
  refine (apply_avoids observed ready.entries).bind ?_
  intro _ hs
  apply resume_bounded hlimit
  refine ⟨hs.cutter.trans hob.cutter, hs.ticking.trans hob.ticking, ?_⟩
  intro hld
  rw [hs.soft] at hld
  obtain ⟨queue, hqu, _, hno, ha⟩ := hob.leader hld
  have hdw := hs.inflight_le
  have hup := hs.le_inflight
  refine ⟨queue, hs.propC.trans hqu, ?_, ?_, ?_⟩
  · dsimp only
    rw [hs.proposed, length_drop]
    cases hl : observed.justElected with
    | true =>
      have hzr := hno hl
      omega
    | false =>
      have hp := (hdl hld hl).length_le
      omega
  · intro hl
    have hzr := hno (hs.justElected ▸ hl)
    dsimp only
    omega
  · intro hac
    obtain ⟨hr, _⟩ := ha (hs.accepting ▸ hac)
    exact ⟨hs.justElected.trans hr, by dsimp only; omega⟩

variable (hwt : ∀ bs, sizes bs → ¬ CanWait bs)

include hwt

theorem step_avoids {ev : Event} (hps : Possible opts sizes c ev) :
    (c.step opts sup ev).Avoids (Bounded opts) := by
  cases ev with
  | submitted =>
    dsimp only [Chain.step]
    split
    next hac =>
      exact submit_avoids hbnd hac (hwt _ hps)
    · exact hbnd
  | ready => exact receiveReady_avoids hlimit hbnd hps
  | timer =>
    dsimp only [Chain.step]
    rw [hbnd.ticking]
    exact hbnd
  | snapshot snap =>
    refine (receiveSnapshot_avoids c snap).imp ?_
    intro next hs
    refine ⟨hs.cutter.trans hbnd.cutter, hs.ticking.trans hbnd.ticking, ?_⟩
    have heq : next.blockInflight = c.blockInflight := le_antisymm hs.inflight_le hs.le_inflight
    rw [hs.soft, hs.propC, hs.proposed, heq, hs.justElected, hs.accepting]
    exact hbnd.leader
  | proposed => exact drain_bounded hbnd true
  | proposalFailed => exact drain_bounded hbnd false

theorem run_avoids {evs : List Event} (hps : PossibleRun opts sup sizes c evs) :
    (c.run opts sup evs).Avoids (Bounded opts) := by
  induction evs generalizing c with
  | nil => exact hbnd
  | cons ev _ ih =>
    obtain ⟨hev, hrs⟩ := hps
    have hstep : (c.step opts sup ev).Avoids (Bounded opts) := step_avoids hlimit hbnd hwt hev
    rw [Chain.run, foldlM_cons]
    cases hnx : c.step opts sup ev with
    | error =>
      rw [hnx] at hstep
      exact hstep
    | ok next =>
      rw [hnx] at hstep
      exact ih hstep (hrs next hnx)

end Bounded

/-! ## A batch can wait -/

section Overflow

variable {opts : Options} {support sup : ChainSupport} {sizes : BatchSize → Prop}

/-- A serving leader with `count` blocks in the channel and none waiting. -/
structure Filled (opts : Options) (count : ℕ) (c : Chain) : Prop where
  lead : c.soft.lead = opts.raftID
  raftState : c.soft.raftState = .leader
  accepting : c.accepting = true
  creator : ∃ number, c.creator = some number
  propC : ∃ queue, c.propC = some queue ∧ queue.length = count
  cutter : c.cutter = newReceiverImpl
  configInflight : c.configInflight = false
  blockInflight : c.blockInflight = count

def waitingSubmission (env : Envelope) (batchSize : BatchSize) : Submission where
  payload := env
  revalidated := .ok env
  outdated := false
  evicts := false
  batchSize := batchSize

variable {env : Envelope}

theorem isConfigBatch_of_normal (hn : isConfig env = .ok false) : isConfigBatch [env] = false := by
  unfold isConfig at hn
  cases hch : Protoutil.channelHeader env with
  | error =>
    rw [hch] at hn
    cases hn
  | ok =>
    rw [hch] at hn
    rw [isConfigBatch, Protoutil.isConfigPayload_of_channelHeader hch]
    simpa [Except.map] using hn

variable {batchSize bs : BatchSize} {c : Chain}

theorem ordered_waiting (hmn : 1 < bs.maxMessageCount) (hn : isConfig env = .ok false)
    (hft : messageSizeBytes env ≤ bs.preferredMaxBytes) (hc : c.cutter = newReceiverImpl) :
    c.ordered (waitingSubmission env bs) =
      .ok
        { batches := []
          pending := true
          cutter := newReceiverImpl.enqueue env } := by
  have hsm : messageSizeBytes env < 2 ^ 32 := uint32_lt _
  have hby : ¬ uint32 (newReceiverImpl.pendingBatchSizeBytes +
      messageSizeBytes env) > bs.preferredMaxBytes := by
    rw [show newReceiverImpl.pendingBatchSizeBytes = 0 from rfl, zero_add, uint32_of_lt hsm]
    omega
  have hop : ¬ uint32 (newReceiverImpl.enqueue env).pending.length ≥ bs.maxMessageCount := by
    simpa [uint32] using hmn
  have hlr : ¬ messageSizeBytes env > bs.preferredMaxBytes := by
    omega
  unfold ordered Receiver.ordered
  simp only [waitingSubmission, hn, hc, if_neg hlr, if_neg hby,
    if_neg hop, Bool.false_eq_true, if_false]

def waitingRound (env : Envelope) (batchSize : BatchSize) : List Event :=
  [.submitted (waitingSubmission env batchSize), .timer]

theorem submit_waiting (hmn : 1 < bs.maxMessageCount) (hn : isConfig env = .ok false)
    (hft : messageSizeBytes env ≤ bs.preferredMaxBytes) {count : ℕ} (hfl : Filled opts count c) :
    c.step opts sup (.submitted (waitingSubmission env bs)) =
      .ok
        { c with
          cutter := newReceiverImpl.enqueue env
          ticking := true
          accepting := decide (count < opts.maxInflightBlocks) } := by
  have hs : ¬ (c.soft.raftState = .preCandidate ∨ c.soft.raftState = .candidate) := by
    rw [hfl.raftState]
    simp
  have hld : ¬ c.soft.lead ≠ opts.raftID := not_not.mpr hfl.lead
  dsimp only [Chain.step]
  rw [if_pos hfl.accepting, submit, if_neg hs, if_neg hld, ordered_waiting hmn hn hft hfl.cutter]
  simp only [Bool.not_true, Bool.false_and, Bool.false_eq_true, if_false,
    propose, hfl.configInflight, hfl.blockInflight]
  by_cases hrm : count < opts.maxInflightBlocks
  · have hle : ¬ count ≥ opts.maxInflightBlocks := by omega
    simp only [bind, Except.bind, if_neg hle, hrm, decide_true, hfl.accepting]
    rfl
  · have hfu : count ≥ opts.maxInflightBlocks := by omega
    simp only [bind, Except.bind, if_pos hfu, hrm, decide_false]
    rfl

theorem timer_waiting (sup : ChainSupport) (hr : isConfig env = .ok false)
    {count : ℕ} (hfl : Filled opts count c) (open' : Bool) :
    (count < opts.maxInflightBlocks → ∃ next, ({ c with
          cutter := newReceiverImpl.enqueue env
          ticking := true
          accepting := open' } : Chain).step opts sup .timer = .ok next ∧
        (open' = true → Filled opts (count + 1) next)) ∧
    (¬ count < opts.maxInflightBlocks → ∃ ht, ({ c with
          cutter := newReceiverImpl.enqueue env
          ticking := true
          accepting := open' } : Chain).step opts sup .timer =
        .error ht ∧ ht.panic = .overflow) := by
  obtain ⟨_, hn⟩ := hfl.creator
  obtain ⟨_, hqu, hl⟩ := hfl.propC
  have hbt : (newReceiverImpl.enqueue env).cut = (some [env], newReceiverImpl) := rfl
  have hc := isConfigBatch_of_normal hr
  subst hl
  dsimp only [Chain.step, timerExpired]
  rw [if_pos rfl, hbt]
  simp only [Option.getD_some, length_singleton, one_ne_zero, if_false, propose, hn, hqu]
  constructor
  · intro hrm
    rw [if_pos hrm]
    refine ⟨_, rfl, ?_⟩
    intro hac
    exact ⟨hfl.lead, hfl.raftState, hac, ⟨_, rfl⟩,
      ⟨_, rfl, by simp⟩, rfl, by simp [hfl.configInflight, hc],
      by simp [hfl.blockInflight]⟩
  · intro hfu
    rw [if_neg hfu]
    exact ⟨_, rfl, rfl⟩

theorem run_cons (c : Chain) (ev : Event) (events : List Event) :
    c.run opts sup (ev :: events) = c.step opts sup ev >>= fun next =>
        next.run opts sup events := by
  simp only [Chain.run, foldlM_cons]

theorem rounds_overflow (hmn : 1 < bs.maxMessageCount) (hn : isConfig env = .ok false)
    (hft : messageSizeBytes env ≤ bs.preferredMaxBytes)
    {count left : ℕ} (hlf : count + left = opts.maxInflightBlocks) (hfl : Filled opts count c) :
    ∃ hl, c.run opts sup (List.replicate (left + 1) (waitingRound env bs)).flatten =
      .error hl ∧ hl.panic = .overflow := by
  induction left generalizing count c with
  | zero =>
    obtain ⟨-, hfu⟩ := timer_waiting sup hn hfl (decide (count < opts.maxInflightBlocks))
    obtain ⟨hl, htm, hpn⟩ := hfu (by omega)
    refine ⟨hl, ?_, hpn⟩
    simp only [zero_add, replicate_one, flatten_singleton, waitingRound]
    rw [run_cons, submit_waiting hmn hn hft hfl]
    simp only [bind, Except.bind]
    rw [run_cons, htm]
    rfl
  | succ _ ih =>
    obtain ⟨hrm, -⟩ := timer_waiting sup hn hfl (decide (count < opts.maxInflightBlocks))
    obtain ⟨next, htm, hnx⟩ := hrm (by omega)
    have hf' : Filled opts (count + 1) next := hnx (by simp; omega)
    obtain ⟨hl, hr, hpn⟩ := ih (by omega) hf'
    refine ⟨hl, ?_, hpn⟩
    rw [replicate_succ, flatten_cons, waitingRound]
    simp only [cons_append, nil_append]
    rw [run_cons, submit_waiting hmn hn hft hfl]
    simp only [bind, Except.bind]
    rw [run_cons, htm]
    exact hr

theorem possibleRun_rounds (hsz : sizes bs) (rounds : ℕ) (c : Chain) :
    PossibleRun opts sup sizes c (List.replicate rounds (waitingRound env bs)).flatten := by
  induction rounds generalizing c with
  | zero => trivial
  | succ _ ih =>
    rw [replicate_succ, flatten_cons, waitingRound]
    exact ⟨hsz, fun _ _ => ⟨trivial, fun next _ => ih next⟩⟩

def electionEvent (opts : Options) : Event :=
  .ready
    { soft := some { lead := opts.raftID, raftState := .leader }
      entries := []
      lastIndex := 0
      voters := [] }

def genesisBlock : Block where
  number := 0
  number_lt := by norm_num

theorem elected_filled (sup : ChainSupport) (mbs : Membership) :
    ∃ next, (newChain genesisBlock 0 mbs).step opts sup
        (electionEvent opts) = .ok next ∧ Filled opts 0 next := by
  have hob : (newChain genesisBlock 0 mbs).observe opts
      { soft := some { lead := opts.raftID, raftState := .leader }
        entries := []
        lastIndex := 0
        voters := [] } =
      { (newChain genesisBlock 0 mbs).becomeLeader [] with
        soft := { lead := opts.raftID, raftState := .leader } } := by
    simp [observe, updateSoft, newChain, opts.raftID_ne_zero, Ne.symm opts.raftID_ne_zero]
  refine ⟨_, rfl, ?_⟩
  rw [hob]
  exact ⟨rfl, rfl, rfl, ⟨0, rfl⟩, ⟨[], rfl, rfl⟩, rfl, rfl, rfl⟩

variable (opts : Options)

/-- The election of the leader and one round more than the channel has room
for. -/
def overflowEvents (env : Envelope) (batchSize : BatchSize) : List Event :=
  electionEvent opts :: (List.replicate (opts.maxInflightBlocks + 1)
    (waitingRound env batchSize)).flatten

variable (sup : ChainSupport)

theorem overflowEvents_overflow {sizes : BatchSize → Prop}
    (hsz : sizes bs) (hmn : 1 < bs.maxMessageCount) (hn : isConfig env = .ok false)
    (hft : messageSizeBytes env ≤ bs.preferredMaxBytes) (mbs : Membership) :
    PossibleRun opts sup sizes (newChain genesisBlock 0 mbs) (overflowEvents opts env bs) ∧
      ∃ hl, (newChain genesisBlock 0 mbs).run opts sup (overflowEvents opts env bs) = .error hl ∧
        hl.panic = .overflow := by
  obtain ⟨_, hc, hfl⟩ := elected_filled sup mbs
  obtain ⟨hl, hr, hpn⟩ := rounds_overflow hmn hn hft (zero_add _) hfl
  refine ⟨⟨?_, ?_⟩, hl, ?_, hpn⟩
  · intro _ _
    exact nil_prefix
  · intro next _
    exact possibleRun_rounds hsz _ next
  · rw [overflowEvents, run_cons, hc]
    exact hr

theorem exists_overflow (sizes : BatchSize → Prop)
    (hsz : sizes bs) (hwt : CanWait bs) (mbs : Membership) :
    ∃ evs, PossibleRun opts sup sizes (newChain genesisBlock 0 mbs) evs ∧
      ∃ hl, (newChain genesisBlock 0 mbs).run opts sup evs = .error hl ∧ hl.panic = .overflow := by
  obtain ⟨hmn, env, hn, hft⟩ := hwt
  exact ⟨overflowEvents opts env bs, overflowEvents_overflow opts sup hsz hmn hn hft mbs⟩

end Overflow

def normalEnvelope : Envelope where
  payload := [10, 4, 10, 2, 8, 3]
  signature := []

def defaultBatchSize : BatchSize where
  maxMessageCount := 500
  preferredMaxBytes := 2 * 1024 * 1024

def sampleOptions : Options where
  raftID := 1
  raftID_ne_zero := by norm_num
  maxInflightBlocks := 1

end FabricSequencer.Etcdraft
