import FabricSequencer.SnapshotMgmt

/-!
# Snapshots and commits exclude each other

The status of the committer, the flag of the loop and the goroutines move
together: a snapshot is in progress exactly while one goroutine generates it,
never while the status says that a commit runs, and its request stays with the
bookkeeper until it is done, so a second request for it is a duplicate.
-/

namespace FabricSequencer.Kvledger

open List Function World Committer SnapshotRequestBookkeeper

theorem lt_of_le_maxUint64 {n : ℕ} (hn : n ≤ maxUint64) : n < 2 ^ 64 := by
  unfold maxUint64 at hn
  omega

theorem uint64_le (n : ℕ) : uint64 n ≤ maxUint64 := by
  have hlt := uint64_lt n
  unfold maxUint64
  omega

inductive RequestReaction (p : Processor) : Reaction → Prop
  | refused (err : String) : RequestReaction p (refuse p err)
  | accepted (requested : ℕ) (bookkeeper : SnapshotRequestBookkeeper)
      (hpending : bookkeeper.pending = insert requested p.bookkeeper.pending)
      (hleast : p.leastAcceptableBlockNum ≤ requested)
      (hlater : ¬(p.committerStatus = .idle ∧ requested = p.lastCommittedBlockNumber)) :
      RequestReaction p ⟨{ p with bookkeeper }, none, some (.requestResponse none)⟩
  | generates (bookkeeper : SnapshotRequestBookkeeper)
      (hpending : bookkeeper.pending = insert p.lastCommittedBlockNumber p.bookkeeper.pending)
      (hidle : p.committerStatus = .idle)
      (hnew : p.lastCommittedBlockNumber ∉ p.bookkeeper.pending) :
      RequestReaction p
        ⟨{ p with bookkeeper, snapshotInProgress := true },
          some (.requested p.lastCommittedBlockNumber),
          some (.requestResponse none)⟩
  | cancelled (requested : ℕ) (bookkeeper : SnapshotRequestBookkeeper)
      (hpending : bookkeeper.pending = p.bookkeeper.pending.erase requested)
      (hother : ¬(p.snapshotInProgress = true ∧ requested = p.lastCommittedBlockNumber)) :
      RequestReaction p ⟨{ p with bookkeeper }, none, some (.requestResponse none)⟩

variable {k after : SnapshotRequestBookkeeper}

theorem SnapshotRequestBookkeeper.add_ok {bn : ℕ} {hn : bn < 2 ^ 64}
    (ha : k.add bn hn = .ok after) : bn ∉ k.pending ∧ after.pending = insert bn k.pending := by
  unfold add at ha
  split at ha
  · cases ha
  next hm =>
    cases ha
    exact ⟨hm, rfl⟩

theorem SnapshotRequestBookkeeper.delete_ok {blockNumber : ℕ}
    (hd : k.delete blockNumber = .ok after) : after.pending = k.pending.erase blockNumber := by
  unfold delete at hd
  split at hd
  · cases hd
    rfl
  · cases hd

variable {p : Processor}

theorem Processor.leastAcceptableBlockNum_le (hla : p.lastCommittedBlockNumber ≤ maxUint64) :
    p.leastAcceptableBlockNum ≤ maxUint64 := by
  unfold Processor.leastAcceptableBlockNum
  split_ifs
  · exact uint64_le _
  · exact hla

variable (snapshots : Finset ℕ)

theorem addRequest_reaction (p : Processor) {requested : ℕ} (hrq : requested ≤ maxUint64) :
    RequestReaction p (addRequest snapshots p requested) := by
  unfold addRequest
  split
  · exact .refused _
  rename_i hlt
  split
  · exact .refused _
  split
  · exact .refused _
  rename_i bookkeeper ha
  obtain ⟨hn, hpn⟩ := add_ok ha
  rw [uint64_of_lt (lt_of_le_maxUint64 hrq)] at hn hpn
  split
  next hw =>
    obtain ⟨hid, rfl⟩ := hw
    exact .generates bookkeeper hpn hid hn
  next hl =>
    exact .accepted requested bookkeeper hpn (by omega) hl

theorem requestAdd_reaction (hla : p.lastCommittedBlockNumber ≤ maxUint64)
    {bn : ℕ} (hn : bn ≤ maxUint64) : RequestReaction p (requestAdd snapshots p bn) := by
  apply addRequest_reaction
  split_ifs
  · exact Processor.leastAcceptableBlockNum_le hla
  · exact hn

theorem request_reaction (hla : p.lastCommittedBlockNumber ≤ maxUint64) (rq : Request) :
    RequestReaction p (processSnapshotMgmtEvent snapshots p rq.event) := by
  cases rq with
  | submit => exact requestAdd_reaction snapshots hla (uint64_le _)
  | cancel bn =>
    simp only [Request.event, processSnapshotMgmtEvent]
    split_ifs with hunder
    · exact .refused _
    · cases hd : p.bookkeeper.delete (uint64 bn) with
      | error err => exact .refused err
      | ok bookkeeper =>
        exact .cancelled (uint64 bn) bookkeeper (delete_ok hd) hunder

variable {reaction : Reaction}

theorem RequestReaction.send (hrc : RequestReaction p reaction) :
    ∃ err, reaction.send = some (.requestResponse err) := by
  cases hrc <;> exact ⟨_, rfl⟩

theorem RequestReaction.status (hrc : RequestReaction p reaction) :
    reaction.processor.committerStatus = p.committerStatus ∧
      reaction.processor.lastCommittedBlockNumber = p.lastCommittedBlockNumber := by
  cases hrc <;> exact ⟨rfl, rfl⟩

def Generator.blockNumber (generator : Generator) (p : Processor) : ℕ :=
  match generator with
  | .running report => report.blockNumber p
  | .sending blockNumber => blockNumber

theorem Generator.blockNumber_congr {first second : Processor}
    (hla : first.lastCommittedBlockNumber = second.lastCommittedBlockNumber) (gn : Generator) :
    gn.blockNumber first = gn.blockNumber second := by
  cases gn with
  | sending => rfl
  | running report =>
    cases report with
    | lastCommitted => exact hla
    | requested => rfl

/-- The committer is past `commitProceed` and has not handed over
`commitDone`. -/
def Committer.works : Committer → Bool
  | .committing _ => true
  | .sendingDone _ => true
  | _ => false

def Committer.blockNumber : Committer → Option ℕ
  | .idle => none
  | .sendingStart blockNumber => some blockNumber
  | .waiting blockNumber => some blockNumber
  | .committing blockNumber => some blockNumber
  | .sendingDone blockNumber => some blockNumber

structure Exclusive (world : World) : Prop where
  last_le : world.processor.lastCommittedBlockNumber ≤ maxUint64
  generators_length : world.generators.length =
    if world.processor.snapshotInProgress then 1 else 0
  status_of_progress : world.processor.snapshotInProgress = true →
    world.processor.committerStatus ≠ .inProcess
  pending_of_progress : world.processor.snapshotInProgress = true →
    world.processor.lastCommittedBlockNumber ∈ world.processor.bookkeeper.pending
  report : ∀ generator ∈ world.generators,
    generator.blockNumber world.processor = world.processor.lastCommittedBlockNumber
  proceed : world.outbox = some .commitProceed →
    world.processor.committerStatus = .inProcess ∧
      ∃ blockNumber, world.committer = .waiting blockNumber
  working : world.committer.works = true → world.processor.committerStatus = .inProcess
  blocked : world.processor.committerStatus = .blocked →
    ∃ blockNumber, world.committer = .waiting blockNumber
  numbers : ∀ blockNumber, world.committer.blockNumber = some blockNumber → blockNumber < maxUint64

variable {w : World}

theorem Exclusive.progress_of_mem (hw : Exclusive w) {gn : Generator} (hm : gn ∈ w.generators) :
    w.processor.snapshotInProgress = true := by
  by_contra hidle
  have hl := hw.generators_length
  rw [if_neg hidle] at hl
  rw [eq_nil_of_length_eq_zero hl] at hm
  cases hm

theorem Exclusive.no_generators (hw : Exclusive w) (hs : w.processor.committerStatus = .inProcess) :
    w.processor.snapshotInProgress = false ∧ w.generators = [] := by
  have hfl : w.processor.snapshotInProgress = false := by
    by_contra hprog
    exact hw.status_of_progress (by simpa using hprog) hs
  have hl := hw.generators_length
  rw [hfl] at hl
  exact ⟨hfl, eq_nil_of_length_eq_zero hl⟩

/-! ## Every action keeps it -/

theorem initSnapshotMgr_last {height : ℕ} (hht : height < 2 ^ 64)
    (hne : height ≠ 0) : uint64 (height + maxUint64) = height - 1 := by
  unfold uint64 maxUint64
  omega

theorem Exclusive.init (height : ℕ) (hht : height < 2 ^ 64)
    (pending : Finset ℕ) (hpn : ∀ rq ∈ pending, rq < 2 ^ 64) (snapshots attempted : Finset ℕ) :
    Exclusive (initSnapshotMgr height hht pending hpn snapshots attempted) := by
  unfold initSnapshotMgr
  dsimp only
  split_ifs with hmissed
  · obtain ⟨hne, hn, _⟩ := hmissed
    have hla := initSnapshotMgr_last hht hne
    have hm : uint64 (height + maxUint64) ∈ pending := by
      rw [hn]
      apply smallestRequest_mem
      rw [← hn, hla]
      unfold maxUint64
      omega
    constructor <;>
      simp [receive, processSnapshotMgmtEvent, newSnapshotRequestBookkeeper,
        ← hn, uint64_le, hm, works, blockNumber, Generator.blockNumber, Report.blockNumber]
  · constructor <;>
      simp [uint64_le, works, blockNumber]

section

variable (hw : Exclusive w)

include hw

/-- A committer that does not wait was neither told to proceed nor blocked. -/
theorem Exclusive.moves (hcm : ∀ bn, w.committer ≠ .waiting bn) {c : Committer} {height : ℕ}
    {hht : height < 2 ^ 64} (hwr : c.works = true → w.processor.committerStatus = .inProcess)
    (hn : ∀ bn, c.blockNumber = some bn → bn < maxUint64) :
    Exclusive { w with committer := c, height, height_lt := hht } :=
  { hw with
    proceed := fun hp => (hw.proceed hp).2.elim fun bn hwt => absurd hwt (hcm bn)
    working := hwr
    blocked := fun hb => (hw.blocked hb).elim fun bn hwt => absurd hwt (hcm bn)
    numbers := hn }

theorem Exclusive.sendRequest (i : ℕ) (rq : Request) (callers : ℕ → Caller) :
    Exclusive { w.receive (some i) rq.event with callers } := by
  have hrc := request_reaction w.snapshots hw.last_le rq
  have hsn := hrc.send
  have hs := hrc.status
  generalize hr : processSnapshotMgmtEvent w.snapshots w.processor rq.event = reaction at hrc hsn hs
  obtain ⟨_, hsn⟩ := hsn
  constructor
  case last_le =>
    simpa [receive, hr, hs.2] using hw.last_le
  case proceed =>
    intro hp
    simp [receive, hr, hsn] at hp
  case working =>
    simpa [receive, hr, hs.1] using hw.working
  case blocked =>
    simpa [receive, hr, hs.1] using hw.blocked
  case numbers => exact hw.numbers
  case generators_length =>
    have hl := hw.generators_length
    cases hrc with
    | generates _ _ _ hn =>
      have hfl : w.processor.snapshotInProgress = false := by
        by_contra hpg
        exact hn (hw.pending_of_progress (by simpa using hpg))
      rw [hfl] at hl
      simpa [receive, hr] using hl
    | refused => simpa [receive, hr, refuse] using hl
    | accepted | cancelled => simpa [receive, hr] using hl
  case status_of_progress =>
    cases hrc with
    | generates _ _ hid => simp [receive, hr, hid]
    | refused => simpa [receive, hr, refuse] using hw.status_of_progress
    | accepted | cancelled => simpa [receive, hr] using hw.status_of_progress
  case pending_of_progress =>
    intro hpg
    cases hrc with
    | generates _ hpn => simp [receive, hr, hpn]
    | refused =>
      simp only [receive, hr, refuse] at hpg ⊢
      exact hw.pending_of_progress hpg
    | accepted _ _ hpn =>
      simp only [receive, hr] at hpg ⊢
      rw [hpn]
      exact Finset.mem_insert_of_mem (hw.pending_of_progress hpg)
    | cancelled _ _ hpn ho =>
      simp only [receive, hr] at hpg ⊢
      rw [hpn]
      refine Finset.mem_erase.mpr ⟨?_, hw.pending_of_progress hpg⟩
      intro heq
      exact ho ⟨hpg, heq.symm⟩
  case report =>
    intro gn hm
    simp only [receive, hr, hs.2] at hm ⊢
    rcases mem_append.mp hm with hm | hn
    · rw [Generator.blockNumber_congr hs.2]
      exact hw.report gn hm
    cases hrc with
    | generates =>
      simp only [Option.map_some, Option.toList_some, mem_singleton] at hn
      rw [hn]
      rfl
    | refused => simp [refuse] at hn
    | accepted | cancelled => simp at hn

theorem Exclusive.sendCommitStart {bn : ℕ} (hcm : w.committer = .sendingStart bn) :
    Exclusive
      { w.receive none (.commitStart bn) with
        committer := .waiting bn } := by
  have hn : ∀ num, (Committer.waiting bn).blockNumber = some num → num < maxUint64 := by
    have hn := hw.numbers
    rwa [hcm] at hn
  have hr : ∀ status, ∀ gn ∈ w.generators,
      gn.blockNumber { w.processor with committerStatus := status } =
        w.processor.lastCommittedBlockNumber := by
    intro _ gn hm
    rw [← hw.report gn hm]
    exact Generator.blockNumber_congr rfl gn
  cases hpg : w.processor.snapshotInProgress with
  | true =>
    have hre : w.receive none (.commitStart bn) =
        { w with
          processor := { w.processor with committerStatus := .blocked }
          outbox := none } := by
      simp [receive, processSnapshotMgmtEvent, hpg]
    rw [hre]
    exact { hw with
      status_of_progress := fun _ heq => by cases heq
      report := hr _
      proceed := fun hp => by cases hp
      working := fun hwr => by cases hwr
      blocked := fun _ => ⟨bn, rfl⟩
      numbers := hn }
  | false =>
    have hre : w.receive none (.commitStart bn) =
        { w with
          processor := { w.processor with committerStatus := .inProcess }
          outbox := some .commitProceed } := by
      simp [receive, processSnapshotMgmtEvent, hpg]
    rw [hre]
    exact { hw with
      status_of_progress := fun htr => by cases hpg.symm.trans htr
      report := hr _
      proceed := fun _ => ⟨rfl, bn, rfl⟩
      working := fun _ => rfl
      blocked := fun hb => by cases hb
      numbers := hn }

theorem Exclusive.sendCommitDone {bn : ℕ} (hcm : w.committer = .sendingDone bn) :
    Exclusive
      { w.receive none (.commitDone bn) with
        committer := .idle } := by
  have hs := hw.working (by rw [hcm]; rfl)
  obtain ⟨hpg, hgn⟩ := hw.no_generators hs
  have hn := hw.numbers bn (by rw [hcm]; rfl)
  have hle : bn ≤ maxUint64 := hn.le
  by_cases hmin : bn = w.processor.bookkeeper.smallestRequestBlockNum
  · have hm : bn ∈ w.processor.bookkeeper.pending := by
      have heq := hmin.trans w.processor.bookkeeper.smallest_eq
      rw [heq]
      apply smallestRequest_mem
      rw [← heq]
      exact hn.ne
    constructor <;>
      simp [receive, processSnapshotMgmtEvent, ← hmin, hgn,
        hm, hle, Committer.works, Committer.blockNumber, Generator.blockNumber, Report.blockNumber]
  · constructor <;>
      simp [receive, processSnapshotMgmtEvent, hmin, hgn,
        hpg, hle, Committer.works, Committer.blockNumber]

theorem Exclusive.sendSnapshotDone {i bn : ℕ} (hg : w.generators[i]? = some (.sending bn)) :
    Exclusive
      ({ w with generators := w.generators.eraseIdx i }.receive none (.snapshotDone bn)) := by
  have hm : Generator.sending bn ∈ w.generators := mem_of_getElem? hg
  have hpg := hw.progress_of_mem hm
  have hn : w.generators.eraseIdx i = [] := by
    have hl := hw.generators_length
    rw [hpg, if_pos rfl] at hl
    have hi := (List.getElem?_eq_some_iff.mp hg).1
    apply eq_nil_of_length_eq_zero
    rw [length_eraseIdx_of_lt hi]
    omega
  have hla := hw.last_le
  have hs := hw.status_of_progress hpg
  have hwr := hw.working
  have hnmb := hw.numbers
  rw [hn]
  clear hg hm hn
  by_cases hb : w.processor.committerStatus = .blocked
  · have hwt := hw.blocked hb
    constructor <;>
      simp_all [receive, processSnapshotMgmtEvent]
  · constructor <;>
      simp_all [receive, processSnapshotMgmtEvent]

end

/-- The call for the last block number a `uint64` has is left out. -/
def BelowMax (action : Action) : Prop :=
  ∀ blockNumber, action = .commitLegacy blockNumber → uint64 blockNumber ≠ maxUint64

variable {w after : World} {action : Action}

theorem Exclusive.step (hlt : BelowMax action) (hw : Exclusive w)
    (hstep : w.step action = some after) : Exclusive after := by
  cases steps_of_step hstep with
  | commitLegacy bn hcm =>
    have hle := uint64_le bn
    have hne := hlt bn rfl
    refine hw.moves (by simp [hcm]) (fun hwr => by cases hwr) fun _ heq => ?_
    cases heq
    omega
  | sendCommitStart _ hco => exact hw.sendCommitStart hco
  | receiveProceed _ hcm hout =>
    have ht := (hw.proceed hout).1
    exact { hw with
      proceed := fun hp => by cases hp
      working := fun _ => ht
      blocked := fun hb => by cases ht.symm.trans hb
      numbers := fun num heq => hw.numbers num (by rw [hcm]; exact heq) }
  | commitFails _ hcm =>
    exact hw.moves (by simp [hcm]) (fun hwr => by cases hwr) fun _ heq => by cases heq
  | commitSucceeds _ hcm =>
    have hn := hw.numbers
    rw [hcm] at hn
    exact hw.moves (by simp [hcm]) (fun _ => hw.working (by rw [hcm]; rfl)) hn
  | sendCommitDone _ hco => exact hw.sendCommitDone hco
  | call | publish => exact { hw with }
  | sendRequest i rq => exact hw.sendRequest i rq _
  | receiveResponse =>
    exact { hw with proceed := fun hr => by cases hr }
  | finish _ report hg =>
    have hm : Generator.running report ∈ w.generators := mem_of_getElem? hg
    refine ⟨hw.1, ?_, hw.3, hw.4, ?_, hw.6, hw.7, hw.8, hw.9⟩
    · simpa using hw.generators_length
    intro gn hs
    rcases mem_or_eq_of_mem_set hs with hold | hnew
    · exact hw.report gn hold
    · rw [hnew]
      change report.blockNumber w.processor = _
      exact hw.report _ hm
  | sendSnapshotDone _ _ hg =>
    exact hw.sendSnapshotDone hg
  | restart => exact Exclusive.init ..

/-! ## Responses -/

structure Answering (outbox : Option Send) (callers : ℕ → Caller)
    (computed : ℕ → Option (Option String)) : Prop where
  owner : ∀ {err index request}, outbox = some (.requestResponse err) →
    callers index = .waiting request → computed index = some err
  waiting : ∀ {index request}, callers index = .waiting request →
    ∃ err, outbox = some (.requestResponse err)
  unique : ∀ {index request other otherRequest}, callers index = .waiting request →
    callers other = .waiting otherRequest → index = other
  returned : ∀ {index request err}, callers index = .returned request err →
    computed index = some err

section Callers

variable {callers : ℕ → Caller} {computed : ℕ → Option (Option String)} {outbox : Option Send}

theorem Answering.none_waiting (hw : Answering outbox callers computed)
    (hs : ∀ err, outbox ≠ some (.requestResponse err)) (i : ℕ)
    (request : Request) : callers i ≠ .waiting request := by
  intro hwt
  obtain ⟨err, ht⟩ := hw.waiting hwt
  exact hs err ht

theorem Answering.of_silent {outbox after : Option Send} (hw : Answering outbox callers computed)
    (hs : ∀ err, outbox ≠ some (.requestResponse err)) : Answering after callers computed where
  owner := fun _ hwt =>
    absurd hwt (hw.none_waiting hs _ _)
  waiting := fun hwt =>
    absurd hwt (hw.none_waiting hs _ _)
  unique := hw.unique
  returned := hw.returned

theorem Answering.call (hw : Answering outbox callers computed) (i : ℕ) (rq : Request) :
    Answering outbox (update callers i (.sending rq))
      computed := by
  have ho : ∀ other caller, caller ≠ Caller.sending rq →
      update callers i (.sending rq) other = caller → callers other = caller := by
    intro other _ hne hc
    by_cases heq : other = i
    · subst heq
      rw [update_self] at hc
      exact absurd hc.symm hne
    · rwa [update_of_ne heq] at hc
  constructor
  · intro _ other _ ht hwt
    exact hw.owner ht (ho other _ (by simp) hwt)
  · intro other _ hwt
    exact hw.waiting (ho other _ (by simp) hwt)
  · intro first _ b _ hf hs
    exact hw.unique (ho first _ (by simp) hf) (ho b _ (by simp) hs)
  · intro other _ _ hr
    exact hw.returned (ho other _ (by simp) hr)

theorem Answering.sendRequest (hw : Answering none callers computed)
    (index : ℕ) (rq : Request) (err : Option String) :
    Answering (some (.requestResponse err)) (update callers index (.waiting rq))
      (update computed index (some err)) := by
  have hon : ∀ {other : ℕ} {otherRequest : Request},
      update callers index (.waiting rq) other = .waiting otherRequest → other = index := by
    intro _ _ hwt
    by_contra hne
    rw [update_of_ne hne] at hwt
    exact hw.none_waiting (by simp) _ _ hwt
  constructor
  · intro _ _ _ hg hwt
    cases hg
    rw [hon hwt, update_self]
  · intro _ _ _
    exact ⟨err, rfl⟩
  · intro _ _ _ _ hf hs
    exact (hon hf).trans (hon hs).symm
  intro other _ _ hr
  by_cases heq : other = index
  · subst heq
    rw [update_self] at hr
    cases hr
  · rw [update_of_ne heq] at hr ⊢
    exact hw.returned hr

theorem Answering.receiveResponse {err : Option String}
    (hw : Answering (some (.requestResponse err)) callers computed)
    {i : ℕ} {rq : Request} (hwt : callers i = .waiting rq) :
    Answering none (update callers i (.returned rq err))
      computed := by
  have hno : ∀ other otherRequest,
      update callers i (.returned rq err) other ≠ .waiting otherRequest := by
    intro other _ ho
    by_cases heq : other = i
    · rw [heq, update_self] at ho
      cases ho
    · rw [update_of_ne heq] at ho
      exact heq (hw.unique ho hwt)
  constructor
  · intro _ _ _ hg
    cases hg
  · intro _ _ ho
    exact absurd ho (hno _ _)
  · intro _ _ _ _ hf
    exact absurd hf (hno _ _)
  intro other _ _ hr
  by_cases heq : other = i
  · subst heq
    rw [update_self] at hr
    cases hr
    exact hw.owner rfl hwt
  · rw [update_of_ne heq] at hr
    exact hw.returned hr

end Callers

def World.Answers (world : World) : Prop := Answering world.outbox world.callers world.computed

theorem Answers.init (height : ℕ) (hht : height < 2 ^ 64)
    (pd : Finset ℕ) (hpn : ∀ rq ∈ pd, rq < 2 ^ 64) (snapshots attempted : Finset ℕ) :
    (initSnapshotMgr height hht pd hpn snapshots attempted).Answers := by
  have hb : ∀ outbox, Answering outbox (fun _ => .absent) fun _ => none := by
    intro outbox
    constructor <;> intros <;> simp_all
  unfold initSnapshotMgr World.Answers
  dsimp only
  split_ifs <;> exact hb _

theorem Answers.step (hex : Exclusive w) (hw : w.Answers)
    (hstep : w.step action = some after) : after.Answers := by
  unfold World.Answers at hw ⊢
  cases steps_of_step hstep with
  | sendCommitStart _ _ ht | receiveProceed _ _ ht | sendCommitDone _ _ ht
  | sendSnapshotDone _ _ _ ht =>
    exact hw.of_silent (by simp [ht])
  | call i rq => exact hw.call i rq
  | sendRequest i rq _ ht =>
    obtain ⟨err, hsn⟩ := (request_reaction w.snapshots hex.last_le rq).send
    rw [ht] at hw
    simpa only [receive, hsn] using hw.sendRequest i rq err
  | receiveResponse _ _ _ hc ht =>
    rw [ht] at hw
    exact hw.receiveResponse hc
  | restart => exact Answers.init ..
  | commitLegacy | commitFails | commitSucceeds | publish | finish => exact hw

def World.generating (world : World) : List Generator := world.generators.filter Generator.isRunning

theorem World.step_last (hla : w.processor.lastCommittedBlockNumber ≤ maxUint64)
    (hcm : w.committer.works = false) (hr : action ≠ .restart)
    (hstep : w.step action = some after) :
    after.height = w.height ∧
      after.processor.lastCommittedBlockNumber = w.processor.lastCommittedBlockNumber := by
  cases steps_of_step hstep with
  | restart => exact absurd rfl hr
  | sendCommitStart | sendSnapshotDone =>
    refine ⟨rfl, ?_⟩
    simp only [receive, processSnapshotMgmtEvent]
    split_ifs <;> rfl
  | sendRequest _ rq =>
    exact ⟨rfl, (request_reaction w.snapshots hla rq).status.2⟩
  | commitSucceeds _ hwr | sendCommitDone _ hwr =>
    rw [hwr] at hcm
    cases hcm
  | commitLegacy | receiveProceed | commitFails | call | receiveResponse
  | publish | finish => exact ⟨rfl, rfl⟩

theorem run_exclusive {start w : World} {actions : List Action}
    (hsr : Exclusive start) (hn : start.Answers) (hlt : ∀ action ∈ actions, BelowMax action)
    (hr : start.run actions = some w) : Exclusive w ∧ w.Answers :=
  run_invariant (fun w => Exclusive w ∧ w.Answers) (fun hl hw hstep =>
      ⟨hw.1.step hl hstep, Answers.step hw.1 hw.2 hstep⟩)
    hlt ⟨hsr, hn⟩ hr

/-- Whatever a ledger finds stored when it is opened, and however its
goroutines interleave and crash, as long as block `2 ^ 64 - 1` is not
committed: no snapshot is generated while a commit runs, at most one is
generated at a time, the last block stays as it is meanwhile, and a caller gets
the response computed for its own request. -/
theorem snapshot_excludes_commits (height : ℕ) (hheight : height < 2 ^ 64) (pending : Finset ℕ)
    (hpending : ∀ request ∈ pending, request < 2 ^ 64) (snapshots attempted : Finset ℕ)
    (actions : List Action) (hbelow : ∀ action ∈ actions, BelowMax action) (world : World)
    (hrun : (initSnapshotMgr height hheight pending hpending snapshots
      attempted).run actions = some world) :
    (world.generating ≠ [] → world.committer.works = false) ∧
    world.generating.length ≤ 1 ∧
    (world.generating ≠ [] → ∀ action after, action ≠ .restart → world.step action = some after →
      after.height = world.height ∧
        after.processor.lastCommittedBlockNumber = world.processor.lastCommittedBlockNumber) ∧
    ∀ index request err, world.callers index = .returned request err →
      world.computed index = some err := by
  obtain ⟨hex, hans⟩ := run_exclusive (Exclusive.init ..) (Answers.init ..) hbelow hrun
  have hwr : world.generating ≠ [] → world.committer.works = false := by
    intro hgn
    by_contra hwork
    have hsts := hex.working (by simpa using hwork)
    apply hgn
    rw [generating, (hex.no_generators hsts).2]
    rfl
  refine ⟨hwr, ?_, ?_, ?_⟩
  · have hl := hex.generators_length
    calc
      world.generating.length ≤ world.generators.length := length_filter_le ..
      _ ≤ 1 := by
        rw [hl]
        split_ifs <;> omega
  · intro hgn _ _ hrst hstep
    exact step_last hex.last_le (hwr hgn) hrst hstep
  · intro _ _ _ hret
    exact hans.returned hret

/-- A ledger of six blocks, a submitted snapshot of the last one and a commit
that waits for it. -/
theorem snapshot_excludes_sample_commit :
    ∃ world, (initSnapshotMgr 6 (by norm_num) ∅ (by simp) ∅ ∅).run
      [.call 0 (.submit 5), .sendRequest 0, .commitLegacy 6,
        .receiveResponse 0, .sendCommitStart] = some world ∧
      world.generating.length ≤ 1 ∧
      ∀ index request err, world.callers index = .returned request err →
        world.computed index = some err := by
  have hr := snapshot_excludes_commits 6 (by norm_num) ∅ (by simp) ∅ ∅
    [.call 0 (.submit 5), .sendRequest 0, .commitLegacy 6, .receiveResponse 0, .sendCommitStart]
    (by simp [BelowMax, uint64, maxUint64]) _ rfl
  exact ⟨_, rfl, hr.2.1, hr.2.2.2⟩

/-- Block `2 ^ 64 - 1` equals the number that stands for no request: its commit
starts a snapshot nobody asked for, and a request for it a second one. -/
theorem last_block_generates_twice :
    ((initSnapshotMgr maxUint64 (by decide) ∅ (by simp) ∅ ∅).run
      [.commitLegacy maxUint64, .sendCommitStart, .receiveProceed,
        .commitSucceeds, .sendCommitDone, .call 0 (.submit maxUint64),
        .sendRequest 0]).map (fun world => world.generating.length)
      = some 2 := by
  decide +kernel

end FabricSequencer.Kvledger
