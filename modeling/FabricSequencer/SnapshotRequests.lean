import FabricSequencer.SnapshotExclusion

/-!
# Pending snapshot requests and restarts

A finished commit starts a snapshot when its block is the smallest pending
request.  While every pending request lies above the last block this passes
over none.  A crash between the final name of a snapshot directory and the
deletion of its request breaks that: the opened ledger finds the snapshot,
generates nothing and keeps the request, which then hides the later ones.
-/

namespace FabricSequencer.Kvledger

open List Finset World

def Stale (world : World) : Prop :=
  world.height ≠ 0 ∧ world.height - 1 ∈ world.processor.bookkeeper.pending ∧
    world.height - 1 ∈ world.snapshots

/-- A commit that is let through passes no pending request whose generation
was not attempted, and without a snapshot in progress the smallest pending
request lies above the last block.  Before the first block the variable of the
loop is `maxUint64`. -/
structure Safe (world : World) : Prop where
  proceed : world.outbox = some .commitProceed →
    world.processor.lastCommittedBlockNumber ≠ maxUint64 →
    ∀ request ∈ world.processor.bookkeeper.pending,
      request ≤ world.processor.lastCommittedBlockNumber →
      request ∈ world.attempted
  smallest : world.processor.snapshotInProgress = false →
    world.processor.lastCommittedBlockNumber ≠ maxUint64 →
    world.processor.lastCommittedBlockNumber < world.processor.bookkeeper.smallestRequestBlockNum

def NeverSkips (start : World) (actions : List Action) : Prop :=
  ∀ first rest world, actions = first ++ rest → start.run first = some world → Safe world

def NoStaleRestart (start : World) (actions : List Action) : Prop :=
  ∀ first rest world, actions = first ++ .restart :: rest →
    start.run first = some world → ¬Stale world

structure Ahead (world : World) : Prop where
  height_done : ∀ blockNumber, world.committer = .sendingDone blockNumber →
    blockNumber = uint64 (world.processor.lastCommittedBlockNumber + 1) ∧
      world.height = uint64 (blockNumber + 1)
  height_eq : (∀ blockNumber, world.committer ≠ .sendingDone blockNumber) →
    world.height = uint64 (world.processor.lastCommittedBlockNumber + 1)
  above : world.processor.lastCommittedBlockNumber ≠ maxUint64 →
    ∀ request ∈ world.processor.bookkeeper.pending,
      world.processor.lastCommittedBlockNumber ≤ request
  strict : world.processor.snapshotInProgress = false →
    world.processor.lastCommittedBlockNumber ≠ maxUint64 →
    world.processor.lastCommittedBlockNumber ∉ world.processor.bookkeeper.pending

variable {w : World}

theorem Ahead.safe (hex : Exclusive w) (hw : Ahead w) : Safe w := by
  have hla := hex.last_le
  constructor
  · intro hp hb rq hr _
    have hs := (hex.proceed hp).1
    have hpg := (hex.no_generators hs).1
    have hab := hw.above hb rq hr
    have heq : rq = w.processor.lastCommittedBlockNumber := by omega
    exact absurd (heq ▸ hr) (hw.strict hpg hb)
  intro hpg hb
  rw [w.processor.bookkeeper.smallest_eq]
  by_cases hno : smallestRequest w.processor.bookkeeper.pending = maxUint64
  · omega
  have hm := smallestRequest_mem hno
  have hab := hw.above hb _ hm
  have hne : w.processor.lastCommittedBlockNumber ≠
      smallestRequest w.processor.bookkeeper.pending := by
    intro heq
    rw [← heq] at hm
    exact hw.strict hpg hb hm
  omega

theorem uint64_succ {la : ℕ} (hle : la ≤ maxUint64) :
    (la = maxUint64 ∧ uint64 (la + 1) = 0) ∨ (la < maxUint64 ∧ uint64 (la + 1) = la + 1) := by
  unfold maxUint64 uint64 at *
  omega

theorem Ahead.next_le (hex : Exclusive w) (hw : Ahead w)
    (hpg : w.processor.snapshotInProgress = false)
    {request : ℕ} (hr : request ∈ w.processor.bookkeeper.pending) :
    uint64 (w.processor.lastCommittedBlockNumber + 1) ≤ request := by
  rcases uint64_succ hex.last_le with ⟨_, _⟩ | ⟨hlt, _⟩
  · omega
  have hab := hw.above hlt.ne request hr
  have hne : w.processor.lastCommittedBlockNumber ≠ request := by
    intro heq
    exact hw.strict hpg hlt.ne (heq ▸ hr)
  omega

theorem Ahead.height_le (hex : Exclusive w) (hw : Ahead w)
    {request : ℕ} (hr : request ∈ w.processor.bookkeeper.pending) : w.height - 1 ≤ request := by
  by_cases hdo : ∃ num, w.committer = .sendingDone num
  · obtain ⟨num, hcm⟩ := hdo
    obtain ⟨_, _⟩ := hw.height_done num hcm
    have hs := hex.working (by rw [hcm]; rfl)
    have hle := hw.next_le hex (hex.no_generators hs).1 hr
    have hlt := hex.numbers num (by rw [hcm]; rfl)
    rcases uint64_succ hlt.le with ⟨_, _⟩ | ⟨_, _⟩ <;> omega
  · have hnx := hw.height_eq (fun num hcm =>
      hdo ⟨num, hcm⟩)
    rcases uint64_succ hex.last_le with ⟨_, _⟩ | ⟨hlt, _⟩
    · omega
    · have hab := hw.above hlt.ne request hr
      omega

/-! ## Every action but a stale restart keeps it -/

theorem initSnapshotMgr_height {height : ℕ} (hht : height < 2 ^ 64) :
    height = uint64 (uint64 (height + maxUint64) + 1) := by
  unfold uint64 maxUint64
  omega

theorem Ahead.init {height : ℕ} (hht : height < 2 ^ 64)
    {pd : Finset ℕ} (hpn : ∀ request ∈ pd, request < 2 ^ 64) {snapshots : Finset ℕ}
    (attempted : Finset ℕ) (hls : height ≠ 0 → ∀ request ∈ pd, height - 1 ≤ request)
    (hsl : height ≠ 0 → height - 1 ∈ pd → height - 1 ∉ snapshots) :
    Ahead (initSnapshotMgr height hht pd hpn snapshots attempted) := by
  have hb : uint64 (height + maxUint64) ≠ maxUint64 → height ≠ 0 := by
    intro hla hzr
    apply hla
    rw [hzr]
    rfl
  have hlw : uint64 (height + maxUint64) ≠ maxUint64 →
      ∀ request ∈ pd, uint64 (height + maxUint64) ≤ request := by
    intro hla request hr
    rw [initSnapshotMgr_last hht (hb hla)]
    exact hls (hb hla) request hr
  have hnx := initSnapshotMgr_height hht
  unfold initSnapshotMgr
  dsimp only
  split_ifs with hmissed
  · obtain ⟨_, hn, _⟩ := hmissed
    constructor
    · intro _ hcm
      cases hcm
    · intro _
      simpa [receive, processSnapshotMgmtEvent, newSnapshotRequestBookkeeper, ← hn] using hnx
    · simpa [receive, processSnapshotMgmtEvent, newSnapshotRequestBookkeeper, ← hn] using hlw
    · simp [receive, processSnapshotMgmtEvent, newSnapshotRequestBookkeeper, ← hn]
  · constructor
    · intro _ hcm
      cases hcm
    · intro _
      exact hnx
    · exact hlw
    intro _ hla hm
    have hh' := hb hla
    have heq := initSnapshotMgr_last hht hh'
    refine hmissed ⟨hh', ?_, ?_⟩
    · exact (smallestRequest_eq_of_least hm (hlw hla)).symm
    · rw [heq]
      change uint64 (height + maxUint64) ∈ pd at hm
      exact hsl hh' (heq ▸ hm)

theorem Ahead.sendRequest (hex : Exclusive w) (hw : Ahead w) (i : ℕ)
    (rq : Request) (callers : ℕ → Caller) : Ahead { w.receive (some i) rq.event with callers } := by
  have hrc := request_reaction w.snapshots hex.last_le rq
  have hs := hrc.status
  generalize hr : processSnapshotMgmtEvent w.snapshots w.processor rq.event = reaction at hrc hs
  constructor
  case height_done =>
    simpa [receive, hr, hs.2] using hw.height_done
  case height_eq =>
    simpa [receive, hr, hs.2] using hw.height_eq
  case above =>
    intro hb other ho
    simp only [receive, hr, hs.2] at hb ho ⊢
    cases hrc with
    | refused => exact hw.above hb other ho
    | accepted _ _ hpn hls =>
      rw [hpn] at ho
      rcases mem_insert.mp ho with hnew | hold
      · subst hnew
        unfold Processor.leastAcceptableBlockNum at hls
        have hnx := uint64_succ hex.last_le
        split_ifs at hls <;> omega
      · exact hw.above hb other hold
    | generates _ hpn =>
      rw [hpn] at ho
      rcases mem_insert.mp ho with heq | hold
      · exact heq.ge
      · exact hw.above hb other hold
    | cancelled _ _ hpn =>
      rw [hpn] at ho
      exact hw.above hb other (mem_of_mem_erase ho)
  case strict =>
    intro hpg hb hm
    simp only [receive, hr, hs.2] at hpg hb hm
    cases hrc with
    | refused => exact hw.strict hpg hb hm
    | accepted _ _ hpn hls hl =>
      rw [hpn] at hm
      rcases mem_insert.mp hm with heq | hold
      · unfold Processor.leastAcceptableBlockNum at hls
        have hnx := uint64_succ hex.last_le
        split_ifs at hls with hbs
        · omega
        · exact hl ⟨not_not.mp hbs, heq.symm⟩
      · exact hw.strict hpg hb hold
    | generates => cases hpg
    | cancelled _ _ hpn =>
      rw [hpn] at hm
      exact hw.strict hpg hb (mem_of_mem_erase hm)

theorem Ahead.sendCommitStart (hw : Ahead w) {num : ℕ} (hcm : w.committer = .sendingStart num) :
    Ahead
      { w.receive none (.commitStart num) with
        committer := .waiting num } := by
  have hht := hw.height_eq (by simp [hcm])
  -- the event only changes the status of the committer
  obtain ⟨_, hst⟩ : ∃ st, (processSnapshotMgmtEvent w.snapshots w.processor
      (.commitStart num)).processor = { w.processor with committerStatus := st } := by
    rw [processSnapshotMgmtEvent]
    split_ifs <;> exact ⟨_, rfl⟩
  refine ⟨fun _ ho => ?_, fun _ => ?_, ?_, ?_⟩
  · cases ho
  · simpa only [receive, hst] using hht
  · simpa only [receive, hst] using hw.above
  · simpa only [receive, hst] using hw.strict

theorem Ahead.sendCommitDone (hex : Exclusive w) (hw : Ahead w) {num : ℕ}
    (hcm : w.committer = .sendingDone num) :
    Ahead
      { w.receive none (.commitDone num) with
        committer := .idle } := by
  obtain ⟨hn, hht⟩ := hw.height_done num hcm
  have hs := hex.working (by rw [hcm]; rfl)
  have hpg := (hex.no_generators hs).1
  have hls : ∀ request ∈ w.processor.bookkeeper.pending, num ≤ request := by
    intro _ hr
    rw [hn]
    exact hw.next_le hex hpg hr
  by_cases hmin : num = w.processor.bookkeeper.smallestRequestBlockNum
  · constructor
    · intro _ ho
      cases ho
    · intro _
      simpa [receive, processSnapshotMgmtEvent, ← hmin] using hht
    · intro _
      simpa [receive, processSnapshotMgmtEvent, ← hmin] using hls
    · simp [receive, processSnapshotMgmtEvent, ← hmin]
  constructor
  · intro _ ho
    cases ho
  · intro _
    simpa [receive, processSnapshotMgmtEvent, hmin] using hht
  · intro _
    simpa [receive, processSnapshotMgmtEvent, hmin] using hls
  intro _ _ hm
  simp only [receive, processSnapshotMgmtEvent, ne_eq, hmin, not_false_eq_true, if_true] at hm
  have hf := smallestRequest_eq_of_least hm hls
  rw [← w.processor.bookkeeper.smallest_eq] at hf
  exact hmin hf.symm

theorem Ahead.sendSnapshotDone (hex : Exclusive w) (hw : Ahead w) {i num : ℕ}
    (hg : w.generators[i]? = some (.sending num)) :
    Ahead ({ w with generators := w.generators.eraseIdx i }.receive none (.snapshotDone num)) := by
  have hm : Generator.sending num ∈ w.generators := mem_of_getElem? hg
  have hn : num = w.processor.lastCommittedBlockNumber := hex.report _ hm
  have hpn := hex.pending_of_progress (hex.progress_of_mem hm)
  rw [← hn] at hpn
  obtain ⟨bookkeeper, hd, hbk⟩ :
      ∃ bookkeeper, w.processor.bookkeeper.delete num = .ok bookkeeper ∧
        bookkeeper.pending = w.processor.bookkeeper.pending.erase num := by
    simp [SnapshotRequestBookkeeper.delete, hpn]
  have hla : ∀ processor, (({ w with
      generators := w.generators.eraseIdx i }.receive none
        (.snapshotDone num)).processor = processor) →
      processor.lastCommittedBlockNumber = w.processor.lastCommittedBlockNumber ∧
      processor.bookkeeper.pending = w.processor.bookkeeper.pending.erase num := by
    intro _ hpc
    rw [← hpc]
    simp only [receive, processSnapshotMgmtEvent, hd]
    split_ifs <;> exact ⟨rfl, hbk⟩
  obtain ⟨heq, hee⟩ := hla _ rfl
  constructor
  · rw [heq]
    exact hw.height_done
  · rw [heq]
    exact hw.height_eq
  · rw [heq, hee]
    intro hb rq hr
    exact hw.above hb rq (mem_of_mem_erase hr)
  · rw [heq, hee, hn]
    intro _ _ hr
    exact (mem_erase.mp hr).1 rfl

theorem Ahead.step {w after : World} {action : Action} (hex : Exclusive w) (hw : Ahead w)
    (hs : action = .restart → ¬Stale w) (hstep : w.step action = some after) : Ahead after := by
  cases steps_of_step hstep with
  | sendCommitStart _ hcm => exact hw.sendCommitStart hcm
  | sendCommitDone _ hcm =>
    exact hw.sendCommitDone hex hcm
  | sendSnapshotDone _ _ hg =>
    exact hw.sendSnapshotDone hex hg
  | sendRequest i rq => exact hw.sendRequest hex i rq _
  | commitSucceeds _ hcm hnx =>
    have hht := hw.height_eq (by simp [hcm])
    refine ⟨?_, ?_, hw.above, hw.strict⟩
    · intro _ hdo
      cases hdo
      exact ⟨hnx.trans hht, by rw [hnx]⟩
    · intro hno
      exact absurd rfl (hno _)
  | restart =>
    apply Ahead.init
    · intro _ _ hr
      exact hw.height_le hex hr
    · intro hht hm hsn
      exact hs rfl ⟨hht, hm, hsn⟩
  | commitLegacy num hcm
  | receiveProceed num hcm houtbox
  | commitFails _ hcm =>
    have hht := hw.height_eq (by simp [hcm])
    exact ⟨by simp, fun _ => hht, hw.above, hw.strict⟩
  | call | receiveResponse | publish | finish =>
    exact { hw with }

theorem Ahead.run {start w : World} {first tl : List Action}
    (hex : Exclusive start) (hsr : Ahead start) (hlt : ∀ action ∈ first, BelowMax action)
    (hs : NoStaleRestart start (first ++ tl)) (hr : start.run first = some w) :
    Exclusive w ∧ Ahead w := by
  induction first generalizing start with
  | nil =>
    cases hr
    exact ⟨hex, hsr⟩
  | cons action first ih =>
    obtain ⟨next, hnx, hl⟩ := Option.bind_eq_some_iff.mp hr
    have hn : action = .restart → ¬Stale start := by
      intro heq
      exact hs [] (first ++ tl) start (by simp [heq]) rfl
    refine ih (hex.step (hlt action mem_cons_self) hnx) (hsr.step hex hn hnx)
      (fun lt hm => hlt lt (mem_cons_of_mem _ hm)) ?_ hl
    intro pre post rc hc hrc
    refine hs (action :: pre) post rc ?_ ?_
    · simp [hc]
    · exact Option.bind_eq_some_iff.mpr ⟨next, hnx, hrc⟩

theorem not_safe_of_stale (hsl : Stale w) :
    ¬Safe (initSnapshotMgr w.height w.height_lt w.processor.bookkeeper.pending
      w.processor.bookkeeper.pending_lt w.snapshots
      w.attempted) := by
  obtain ⟨hht, hpn, hsn⟩ := hsl
  have hla := initSnapshotMgr_last w.height_lt hht
  intro hsf
  have hm := hsf.smallest
  unfold initSnapshotMgr at hm
  rw [← hla] at hpn hsn
  rw [if_neg (fun hs => hs.2.2 hsn)] at hm
  have hne : uint64 (w.height + maxUint64) ≠ maxUint64 := by
    have hlt := w.height_lt
    rw [hla]
    unfold maxUint64
    omega
  have hab := hm rfl hne
  have hle := smallestRequest_le hpn
  exact absurd hle (not_le.mpr hab)

/-- From a ledger without pending requests, and as long as block `2 ^ 64 - 1`
is not committed, no accepted request is skipped exactly when no restart finds
the last block both requested and already in a snapshot directory. -/
theorem requests_never_skipped_iff (height : ℕ) (hheight : height < 2 ^ 64)
    (snapshots attempted : Finset ℕ) (actions : List Action)
    (hbelow : ∀ action ∈ actions, BelowMax action) :
    NeverSkips (initSnapshotMgr height hheight ∅ (by simp) snapshots attempted) actions ↔
      NoStaleRestart (initSnapshotMgr height hheight ∅ (by simp) snapshots attempted)
        actions := by
  constructor
  · intro hnv first tl w hact hrun hsl
    have haf : (initSnapshotMgr height hheight ∅ (by simp) snapshots
        attempted).run (first ++ [Action.restart]) =
        some (initSnapshotMgr w.height w.height_lt w.processor.bookkeeper.pending
          w.processor.bookkeeper.pending_lt w.snapshots
          w.attempted) := by
      rw [run_append, hrun]
      rfl
    exact not_safe_of_stale hsl (hnv (first ++ [.restart]) tl _ (by simp [hact]) haf)
  · intro hrst _ _ _ hact hrun
    subst hact
    have hsr : Ahead (initSnapshotMgr height hheight ∅ (by simp) snapshots attempted) :=
      Ahead.init hheight (by simp) attempted (by simp) (by simp)
    obtain ⟨hex, hw⟩ := Ahead.run
      (Exclusive.init ..) hsr (fun action hmem => hbelow action (mem_append_left _ hmem)) hrst hrun
    exact hw.safe hex

theorem requests_never_skipped_sample :
    NeverSkips (initSnapshotMgr 6 (by norm_num) ∅ (by simp) ∅ ∅)
        [.call 0 (.submit 5), .sendRequest 0, .receiveResponse 0, .restart] ↔
      NoStaleRestart (initSnapshotMgr 6 (by norm_num) ∅ (by simp) ∅ ∅)
        [.call 0 (.submit 5), .sendRequest 0, .receiveResponse 0, .restart] :=
  requests_never_skipped_iff 6 (by norm_num) ∅ ∅ _ (by simp [BelowMax])

/-- The snapshot of block 5 is stored, the peer crashes before its request is
deleted, and the later request for block 6 is passed over: block 7 is let
through without an attempt. -/
theorem later_request_is_skipped :
    ((initSnapshotMgr 6 (by norm_num) ∅ (by simp) ∅ ∅).run
      [.call 0 (.submit 5), .sendRequest 0, .receiveResponse 0, .publish 0,
        .restart, .call 0 (.submit 6), .sendRequest 0, .receiveResponse 0,
        .commitLegacy 6, .sendCommitStart, .receiveProceed, .commitSucceeds,
        .sendCommitDone, .commitLegacy 7, .sendCommitStart]).map
      (fun world =>
        (world.outbox, world.processor.lastCommittedBlockNumber,
          decide (6 ∈ world.processor.bookkeeper.pending),
          decide (6 ∈ world.attempted))) =
      some (some .commitProceed, 6, true, false) := by
  decide +kernel

end FabricSequencer.Kvledger
