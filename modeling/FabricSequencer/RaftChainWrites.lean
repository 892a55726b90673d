import FabricSequencer.RaftChain

/-!
# The blocks a raft chain writes

Every block handed to the support has the number after the last one, whether
it comes from a raft entry, from a snapshot or from the puller.  The three
guards of the source (the applied index, the number of the last block and the
index of a snapshot) only ever drop a block.
-/

namespace FabricSequencer.Etcdraft

open Chain Turn List

def Turn.Ends (good stopped : Chain → Prop) : Turn → Prop
  | .ok c => good c
  | .error halt => stopped halt.chain

variable {c : Chain} {good stopped : Chain → Prop}

theorem Turn.ends_ok (hgd : good c) : Turn.Ends good stopped (.ok c) := hgd

theorem Turn.ends_error {panic : Panic} (hs : stopped c) :
    Turn.Ends good stopped (.error ⟨panic, c⟩) := hs

variable {turn : Turn}

theorem Turn.Ends.bind {good lt stopped : Chain → Prop} {next : Chain → Turn}
    (htr : turn.Ends good stopped) (hnx : ∀ c, good c → (next c).Ends lt stopped) :
    Turn.Ends lt stopped (turn >>= next) := by
  cases turn with
  | ok c => exact hnx c htr
  | error => exact htr

theorem Turn.Ends.chain {kept : Chain → Prop} (htr : turn.Ends kept kept) : kept turn.chain := by
  cases turn with
  | ok | error => exact htr

theorem Turn.Ends.imp {good stopped better halted : Chain → Prop} (htr : turn.Ends good stopped)
    (hgd : ∀ c, good c → better c) (hs : ∀ c, stopped c → halted c) :
    turn.Ends better halted := by
  cases turn with
  | ok c => exact hgd c htr
  | error hl => exact hs hl.chain htr

theorem Turn.ends_foldlM {α : Type} {turn : Chain → α → Turn} {kept stopped : Chain → Prop}
    (htr : ∀ c it, kept c → (turn c it).Ends kept stopped) (its : List α) (hsr : kept c) :
    Turn.Ends kept stopped (its.foldlM turn c) := by
  induction its generalizing c with
  | nil => exact hsr
  | cons it _ ih =>
    rw [foldlM_cons]
    exact (htr c it hsr).bind fun next hnx => ih hnx

/-- The numbers after `last`, as a 64-bit counter gives them. -/
def successors (last count : ℕ) : List ℕ := (List.range' (last + 1) count).map uint64

theorem successors_succ (la count : ℕ) :
    successors la (count + 1) = successors la count ++ [uint64 (la + count + 1)] := by
  rw [successors, range'_concat, map_append]
  simp [successors, add_assoc, add_comm, add_left_comm]

/-- Since `origin` exactly the numbers after its last block were written. -/
structure Wrote (origin : Chain) (c : Chain) : Prop where
  written : ∃ count, c.written = origin.written ++ successors origin.lastBlock.number count
  applied : origin.appliedIndex ≤ c.appliedIndex

structure InStep (origin : Chain) (c : Chain) : Prop where
  written : ∃ count, c.written = origin.written ++ successors origin.lastBlock.number count ∧
    c.lastBlock.number = uint64 (origin.lastBlock.number + count)
  applied : origin.appliedIndex ≤ c.appliedIndex

theorem InStep.wrote {origin c : Chain} (hstep : InStep origin c) : Wrote origin c := by
  obtain ⟨count, hwr, -⟩ := hstep.written
  exact ⟨⟨count, hwr⟩, hstep.applied⟩

theorem InStep.refl (c : Chain) : InStep c c where
  written := ⟨0, by simp [successors], (uint64_of_lt c.lastBlock.number_lt).symm⟩
  applied := le_rfl

section

variable {origin c next : Chain}
  (hstep : InStep origin c) {b : Block} (hnum : b.number = uint64 (c.lastBlock.number + 1))
  (hwr : next.written = c.written ++ [b.number]) (hapl : next.appliedIndex = c.appliedIndex)

include hstep hnum hwr hapl

theorem InStep.write_next (hla : next.lastBlock = b) : InStep origin next := by
  obtain ⟨count, hl, hc⟩ := hstep.written
  have hn' : b.number = uint64 (origin.lastBlock.number + count + 1) := by
    rw [hnum, hc]
    simp [uint64]
  have hn : next.written = origin.written ++ successors origin.lastBlock.number (count + 1) := by
    rw [hwr, hl, append_assoc, successors_succ, hn']
  refine ⟨⟨count + 1, hn, ?_⟩, hstep.applied.trans hapl.ge⟩
  rw [hla, hn', add_assoc]

theorem InStep.wrote_next : Wrote origin next := by
  have hs : InStep origin { next with lastBlock := b } := hstep.write_next hnum hwr hapl rfl
  exact ⟨hs.wrote.written, hs.applied⟩

end

section Steps

variable {opts : Options} {sup : ChainSupport} {origin : Chain} {c : Chain}

variable {content : ConfigContent}

theorem detectConfChange_error {hl : Stopped} (hr : c.detectConfChange content = .error hl) :
    hl.chain = c := by
  unfold detectConfChange at hr
  split at hr
  · cases hr; rfl
  · cases hr
  · cases hr
  · cases hr; rfl
  · cases hr
  · split at hr
    · cases hr; rfl
    · cases hr

variable {b : Block}

theorem writeConfigBlock_ends {i : ℕ}
    (hp : ∀ hal : Chain, hal.written = c.written → hal.appliedIndex = c.appliedIndex → stopped hal)
    (hwr : ∀ next : Chain, next.written = c.written ++ [b.number] →
      next.appliedIndex = c.appliedIndex → stopped next)
    (haf : ∀ next : Chain, next.written = c.written ++ [b.number] →
      next.appliedIndex = c.appliedIndex → next.lastBlock = c.lastBlock →
      good next) :
    (c.writeConfigBlock sup b content i).Ends good stopped := by
  unfold writeConfigBlock
  split
  · exact ends_error (hp _ rfl rfl)
  · dsimp only
    rcases hd : detectConfChange
        { c with configInflight := false } content with halt | configMembership
    · have hch := detectConfChange_error hd
      refine hp halt.chain ?_ ?_ <;> rw [hch]
    cases configMembership with
    | none => exact ends_ok (haf _ rfl rfl rfl)
    | some =>
      simp only [bind, Except.bind]
      split
      · exact ends_ok (haf _ rfl rfl rfl)
      · unfold configureCommOrPanic
        split
        · exact ends_error (hwr _ rfl rfl)
        · exact ends_ok (haf _ rfl rfl rfl)
  · exact ends_error (hp _ rfl rfl)

theorem writeBlock_ends (hstep : InStep origin c) (b : Block) (i : ℕ) :
    (c.writeBlock sup b i).Ends (InStep origin) (Wrote origin) := by
  unfold writeBlock
  dsimp only
  split_ifs with hhigh hlow
  · exact hstep.wrote
  · exact hstep
  have hnum : b.number = uint64 (c.lastBlock.number + 1) := by omega
  split
  · apply writeConfigBlock_ends
    · intro _ hwr hapl
      obtain ⟨count, hl, -⟩ := hstep.written
      exact ⟨⟨count, hwr.trans hl⟩, hapl ▸ hstep.applied⟩
    · intro _ hwr hapl
      exact hstep.wrote_next hnum hwr hapl
    · intro _ hwr hapl hla
      exact hstep.write_next hnum hwr hapl hla
  · exact ends_ok (hstep.write_next hnum rfl rfl rfl)

theorem commitBlock_ends (hstep : InStep origin c)
    (hnum : b.number = uint64 (c.lastBlock.number + 1)) :
    (c.commitBlock sup b).Ends (fun next => InStep origin { next with lastBlock := b })
      (Wrote origin) := by
  have haf : ∀ next : Chain, next.written = c.written ++ [b.number] →
      next.appliedIndex = c.appliedIndex →
      InStep origin { next with lastBlock := b } :=
    fun next hwr hapl =>
      hstep.write_next hnum hwr hapl rfl
  unfold commitBlock
  split
  · exact hstep.wrote
  dsimp only
  split
  · exact ends_ok (haf _ rfl rfl)
  rename_i content _
  rcases hd : (c.write b).detectConfChange content with halt | configMembership
  · have hch := detectConfChange_error hd
    have hhl : Wrote origin halt.chain := by
      rw [hch]
      exact hstep.wrote_next hnum rfl rfl
    exact hhl
  cases configMembership with
  | none => exact ends_ok (haf _ rfl rfl)
  | some =>
    simp only [bind, Except.bind]
    split
    · unfold configureCommOrPanic
      split
      · exact ends_error (hstep.wrote_next hnum rfl rfl)
      · exact ends_ok (haf _ rfl rfl)
    · exact ends_ok (haf _ rfl rfl)

theorem inStep_of_same {c next : Chain} (hstep : InStep origin c) (hwr : next.written = c.written)
    (hla : next.lastBlock = c.lastBlock) (hapl : c.appliedIndex ≤ next.appliedIndex) :
    InStep origin next := by
  obtain ⟨count, hl, hnum⟩ := hstep.written
  exact ⟨⟨count, hwr.trans hl, hla ▸ hnum⟩, hstep.applied.trans hapl⟩

theorem advance_inStep (hstep : InStep origin c) (i : ℕ) : InStep origin (c.advance i) := by
  unfold advance
  split
  next hi =>
    exact inStep_of_same hstep rfl rfl (le_of_lt hi)
  · exact hstep

theorem applyEntry_ends (entry : Entry) (hstep : InStep origin c) :
    (c.applyEntry sup entry).Ends (InStep origin) (Wrote origin) := by
  unfold applyEntry
  split
  · exact advance_inStep hstep _
  · split
    · exact advance_inStep hstep _
    · exact (writeBlock_ends hstep _ _).bind fun next hnx => advance_inStep hnx _
  · split
    · exact advance_inStep hstep _
    · exact hstep.wrote
  · exact hstep
  · exact hstep.wrote
  apply advance_inStep
  unfold finishConfChange
  split
  · exact inStep_of_same hstep rfl rfl le_rfl
  · exact hstep

theorem apply_ends (es : List Entry) (hstep : InStep origin c) :
    (c.apply sup es).Ends (InStep origin) (Wrote origin) := by
  unfold apply
  split
  · exact hstep
  · split
    · exact hstep.wrote
    · exact ends_foldlM (fun _ entry => applyEntry_ends entry) _ hstep

variable {seq : ℕ} {buffer rest : List Block}

theorem popBlock_number (hp : popBlock seq buffer = (some b, rest)) : b.number = seq := by
  cases buffer with
  | nil => cases hp
  | cons =>
    rw [popBlock] at hp
    split at hp
    · cases hp
    next hs =>
      rw [not_not] at hs
      cases hp
      exact hs.symm

variable {view : PullerView}

theorem tryFetchBlock_number {attempt : Attempt}
    (hft : view.tryFetchBlock seq buffer attempt = (some b, rest)) : b.number = seq := by
  unfold PullerView.tryFetchBlock at hft
  split at hft
  next hp =>
    cases hft
    exact popBlock_number hp
  split at hft
  · cases hft
  split at hft
  · cases hft
  · split at hft
    · exact popBlock_number hft
    · cases hft

variable {attempts : List Attempt}

theorem pullRemote_number (hpl : view.pullRemote seq buffer attempts = (some b, rest)) :
    b.number = seq := by
  induction attempts generalizing buffer with
  | nil => cases hpl
  | cons _ _ ih =>
    rw [PullerView.pullRemote] at hpl
    split at hpl
    next hft =>
      cases hpl
      exact tryFetchBlock_number hft
    · exact ih hpl

theorem pullBlock_number (hpl : view.pullBlock seq buffer attempts = (some b, rest)) :
    b.number = seq := by
  unfold PullerView.pullBlock at hpl
  split at hpl
  · rw [Prod.mk.injEq] at hpl
    exact view.ledger_number _ _ hpl.1
  · exact pullRemote_number hpl

theorem pullAll_ends {la : ℕ} (pulls : List Pull) {next : ℕ}
    {buffer : List Block} (hstep : InStep origin c) (hnx : next = uint64 (c.lastBlock.number + 1)) :
    (pullAll sup la pulls next buffer c).Ends (InStep origin) (Wrote origin) := by
  induction pulls generalizing next buffer c with
  | nil =>
    unfold pullAll
    split
    · exact hstep.wrote
    · exact hstep
  | cons _ _ ih =>
    unfold pullAll
    split
    · dsimp only
      split
      · exact hstep.wrote
      rename_i b rest hpl
      have hnum := pullBlock_number hpl
      refine (commitBlock_ends hstep (hnum.trans hnx)).bind ?_
      intro _ haf
      exact ih haf (by rw [← hnum])
    · exact hstep

theorem catchUp_ends (snap : Snapshot) (hstep : InStep origin c) :
    (c.catchUp sup snap).Ends (InStep origin) (Wrote origin) := by
  unfold catchUp
  split
  · exact hstep.wrote
  split_ifs with hbehind hnext
  · exact hstep
  · exact (commitBlock_ends hstep hnext).bind fun _ haf => haf
  · split
    · exact hstep.wrote
    · exact pullAll_ends _ hstep rfl

structure SameLedger (c next : Chain) : Prop where
  written : next.written = c.written
  lastBlock : next.lastBlock = c.lastBlock
  appliedIndex : next.appliedIndex = c.appliedIndex

theorem SameLedger.inStep {c next : Chain} (heq : SameLedger c next)
    (hstep : InStep origin c) : InStep origin next :=
  inStep_of_same hstep heq.written heq.lastBlock heq.appliedIndex.ge

theorem propose_sameLedger {c start : Chain} (bts : List (List Envelope))
    (heq : SameLedger start c) :
    (propose opts bts c).Ends (SameLedger start) (SameLedger start) := by
  induction bts generalizing c with
  | nil => exact heq
  | cons _ _ ih =>
    unfold propose
    split
    · exact heq
    dsimp only
    split
    · exact { heq with }
    · split
      · exact ih { heq with }
      · exact { heq with }

section

variable (c : Chain)

theorem submit_sameLedger (msg : Submission) :
    (c.submit opts msg).Ends (SameLedger c) (SameLedger c) := by
  unfold submit
  split
  · exact ⟨rfl, rfl, rfl⟩
  split
  · exact ⟨rfl, rfl, rfl⟩
  split
  · exact ⟨rfl, rfl, rfl⟩
  dsimp only
  split
  · exact ⟨rfl, rfl, rfl⟩
  refine Turn.Ends.bind  (propose_sameLedger _ ⟨rfl, rfl, rfl⟩) ?_
  intro next hnx
  have hp : SameLedger c { next with accepting := false } :=
    { hnx with }
  split
  · exact hp
  · split
    · exact hp
    · exact hnx

theorem timerExpired_sameLedger : (c.timerExpired opts).Ends (SameLedger c) (SameLedger c) := by
  unfold timerExpired
  dsimp only
  split
  · exact ⟨rfl, rfl, rfl⟩
  · exact propose_sameLedger _ ⟨rfl, rfl, rfl⟩

theorem observe_sameLedger (ready : Ready) : SameLedger c (c.observe opts ready) := by
  unfold observe
  split
  · exact ⟨rfl, rfl, rfl⟩
  · unfold updateSoft
    dsimp only
    split_ifs <;> exact ⟨rfl, rfl, rfl⟩

theorem resume_sameLedger (lastIndex : ℕ) : SameLedger c (c.resume opts lastIndex) := by
  unfold resume
  split_ifs <;> exact ⟨rfl, rfl, rfl⟩

theorem drain_sameLedger (accepted : Bool) : SameLedger c (c.drain accepted) := by
  unfold drain
  split
  · split <;> exact ⟨rfl, rfl, rfl⟩
  · exact ⟨rfl, rfl, rfl⟩

end

theorem receiveReady_ends (ready : Ready) (hstep : InStep origin c) :
    (c.receiveReady opts sup ready).Ends (InStep origin) (Wrote origin) := by
  unfold receiveReady
  dsimp only
  refine (apply_ends _ ((observe_sameLedger c ready).inStep hstep)).bind ?_
  intro _ hapl
  apply (resume_sameLedger _ _).inStep
  exact inStep_of_same hapl rfl rfl le_rfl

theorem receiveSnapshot_ends (snap : Snapshot) (hstep : InStep origin c) :
    (c.receiveSnapshot sup snap).Ends (InStep origin) (Wrote origin) := by
  unfold receiveSnapshot
  split_ifs with hidx hbehind
  · exact hstep
  · exact catchUp_ends snap (inStep_of_same hstep rfl rfl (le_of_lt (not_le.mp hbehind)))
  · exact catchUp_ends snap hstep

theorem step_ends (ev : Event) (hstep : InStep origin c) :
    (c.step opts sup ev).Ends (InStep origin) (Wrote origin) := by
  cases ev with
  | submitted msg =>
    dsimp only [Chain.step]
    split
    · exact (submit_sameLedger c msg).imp (fun _ heq => heq.inStep hstep)
        fun _ heq => (heq.inStep hstep).wrote
    · exact hstep
  | ready ready => exact receiveReady_ends ready hstep
  | timer =>
    dsimp only [Chain.step]
    split
    · exact (timerExpired_sameLedger c).imp (fun _ heq => heq.inStep hstep)
        fun _ heq => (heq.inStep hstep).wrote
    · exact hstep
  | snapshot snap => exact receiveSnapshot_ends snap hstep
  | proposed => exact (drain_sameLedger c true).inStep hstep
  | proposalFailed => exact (drain_sameLedger c false).inStep hstep

theorem run_ends (evs : List Event) (hstep : InStep origin c) :
    (c.run opts sup evs).Ends (InStep origin) (Wrote origin) :=
  ends_foldlM (fun _ ev => step_ends ev) evs hstep

end Steps

theorem successors_of_lt {la count : ℕ} (hrm : la + count < 2 ^ 64) :
    successors la count = range' (la + 1) count := by
  rw [successors]
  conv_rhs => rw [← map_id (range' (la + 1) count)]
  apply map_congr_left
  intro _ hm
  rw [mem_range'_1] at hm
  exact uint64_of_lt (by omega)

theorem run_append {opts : Options} {sup : ChainSupport} (c : Chain) (early late : List Event) :
    c.run opts sup (early ++ late) = c.run opts sup early >>= fun md =>
        md.run opts sup late := by
  simp only [Chain.run, foldlM_append]

def blockAt (number : ℕ) : Block where
  number := uint64 number
  number_lt := uint64_lt number

def follower : Chain where
  lastBlock := blockAt 4
  appliedIndex := 7
  membership := ⟨⟨[], 1, 7⟩, SortedMap.empty⟩

def committed (entries : List Entry) : Event :=
  .ready { soft := none, entries := entries, lastIndex := 10, voters := [] }

/-- A deposed leader has proposed the block 5 a second time. -/
def committedTwice : List Event :=
  [committed [⟨8, .block (blockAt 5)⟩, ⟨9, .block (blockAt 5)⟩, ⟨10, .block (blockAt 6)⟩]]

/-- The last entries are delivered again, and a snapshot brings the block 7. -/
def redelivered : List Event :=
  [committed [⟨9, .block (blockAt 5)⟩, ⟨10, .block (blockAt 6)⟩],
    .snapshot { index := 12, block := .ok (blockAt 7), createPuller := .ok (), pulls := [] }]

end FabricSequencer.Etcdraft
