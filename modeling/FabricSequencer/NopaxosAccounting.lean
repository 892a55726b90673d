import FabricSequencer.NopaxosChain

/-!
# No message is lost, duplicated or reordered by the main loop

The loop invariant ties the batch timer to the cutter: at every loop head the
timer is armed exactly when messages are pending.  Each iteration moves
messages from the cutter to written blocks without loss, so over a whole run
the written blocks followed by the pending batch are the accepted messages in
their order of arrival.
-/

namespace FabricSequencer
namespace NopaxosChain

open BlockCutter Effect List EffectMachine

variable {σ : Type}

structure Chain.LoopInvariant (chain : Chain σ) : Prop where
  cutter : chain.cutter.WellFormed
  timer_iff : chain.timer = true ↔ chain.cutter.pending ≠ []

def Chain.pendingContents (chain : Chain σ) : List Content := chain.cutter.pending.map .normalMsg

def Effect.messages : Effect σ → List Content
  | .wroteBlock _ batch => batch.map .normalMsg
  | .wroteConfigBlock _ batch => batch.map .configMsg
  | _ => []

variable (S : ConsenterSupport σ)

def acceptedMessages (chain : Chain σ) (events : List Event) : List Content :=
  EffectMachine.observed (mainStep S) (admitted S) chain events

def Effect.WellShaped : Effect σ → Prop
  | .wroteBlock _ batch => batch ≠ []
  | .wroteConfigBlock _ batch => ∃ env, batch = [env]
  | .timerExpiredWithNoPending => False
  | _ => True

theorem newChain_loopInvariant (sup : σ) : (newChain sup).LoopInvariant where
  cutter := newReceiverImpl_wellFormed
  timer_iff := by simp [newChain]

theorem writeBatches_messages (sup : σ) (bts : List (List Envelope)) :
    (writeBatches S sup bts).2.flatMap messages = bts.flatten.map .normalMsg := by
  induction bts generalizing sup with
  | nil => rfl
  | cons _ _ ih => simp [writeBatches, ih, messages]

theorem writeBatches_wellShaped {sup : σ} {bts : List (List Envelope)}
    (hne : ∀ batch ∈ bts, batch ≠ []) : ∀ ef ∈ (writeBatches S sup bts).2, ef.WellShaped := by
  induction bts generalizing sup with
  | nil =>
    intro _ hm
    simp [writeBatches] at hm
  | cons batch _ ih =>
    intro ef hm
    simp only [writeBatches, mem_cons] at hm
    rcases hm with _ | htail
    · subst ef
      exact hne batch (by simp)
    · exact ih (fun other ho => hne other (by simp [ho])) ef htail

theorem writeCut_messages (sup : σ) (r : Receiver) :
    (writeCut S sup r.pendingBatch).2.flatMap messages = r.pending.map .normalMsg := by
  cases hbt : r.pendingBatch <;>
    simp [writeCut, messages, Receiver.pending, hbt]

theorem writeCut_wellShaped {sup : σ} {r : Receiver} (hwl : r.WellFormed) :
    ∀ ef ∈ (writeCut S sup r.pendingBatch).2, ef.WellShaped := by
  intro ef hm
  have hne := hwl.nonempty
  cases hbt : r.pendingBatch with
  | none => simp [writeCut, hbt] at hm
  | some =>
    rw [hbt] at hne
    simp only [writeCut, hbt, mem_singleton] at hm
    subst ef
    intro hn
    exact hne (by rw [hn])

structure IterationSpec (chain : Chain σ)
    (event : Event) (next : Chain σ) (effects : List (Effect σ)) : Prop where
  invariant : next.LoopInvariant
  balance :
    effects.flatMap Effect.messages ++ next.pendingContents =
      chain.pendingContents ++ admitted S chain event
  wellShaped : ∀ effect ∈ effects, effect.WellShaped

variable {S : ConsenterSupport σ}

theorem orderWith_spec {c : Chain σ} {seq : ℕ} {env : Envelope}
    (bsz : BatchSize) (hch : c.LoopInvariant)
    (ha : seq < S.sequence c.support → ∃ newSeq, S.processNormalMsg c.support env = .ok newSeq) :
    IterationSpec S c (.received ⟨seq, .normalMsg env⟩) (orderWith S c bsz env).1
      (orderWith S c bsz env).2 := by
  have ho := hch.cutter.ordered_spec bsz env
  have had : admitted S c (.received ⟨seq, .normalMsg env⟩) = [.normalMsg env] := by
    simp only [admitted]
    split_ifs with hstale
    · obtain ⟨_, hpc⟩ := ha hstale
      simp [hpc]
    · rfl
  refine ⟨⟨ho.wellFormed, ?_⟩, ?_, ?_⟩
  · change updateTimer c.timer _ = true ↔ _
    rw [updateTimer_eq]
    exact ho.pending_iff
  · have hcn := congrArg (map Content.normalMsg) ho.conserved
    rw [had]
    simp only [orderWith, Chain.pendingContents]
    rw [writeBatches_messages, ← map_append, hcn]
    simp
  · exact writeBatches_wellShaped S ho.batches_nonempty

variable {effects : List (Effect σ)}

theorem orderConfig_spec {c next : Chain σ} {ev : Event} {env : Envelope} (hch : c.LoopInvariant)
    (had : admitted S c ev = [.configMsg env]) (ho : orderConfig S c env = some (next, effects)) :
    IterationSpec S c ev next effects := by
  obtain ⟨-, hc, htm, hf⟩ := orderConfig_eq_some ho
  have hpn : next.cutter.pending = [] := by
    rw [hc]
    rfl
  refine ⟨⟨?_, ?_⟩, ?_, ?_⟩
  · rw [hc]
    exact c.cutter.cut_wellFormed
  · simp [htm, hpn]
  · rw [hf, flatMap_append, writeCut_messages, had]
    simp [Chain.pendingContents, hpn, messages]
  intro ef hm
  rw [hf, mem_append, mem_singleton] at hm
  rcases hm with hcut | _
  · exact writeCut_wellShaped S hch.cutter ef hcut
  · subst ef
    exact ⟨env, rfl⟩

theorem expireTimer_spec {c : Chain σ} (hch : c.LoopInvariant) (har : c.timer = true) :
    IterationSpec S c .timerExpired (expireTimer S c).1 (expireTimer S c).2 := by
  have hpn := hch.timer_iff.mp har
  rw [expireTimer_of_pending_ne_nil S hpn]
  refine ⟨⟨c.cutter.cut_wellFormed, ?_⟩, ?_, ?_⟩
  · simp
  · simp [messages, Chain.pendingContents, admitted]
  · intro ef hm
    rw [mem_singleton] at hm
    subst ef
    exact hpn

theorem mainStep_spec {c next : Chain σ} {ev : Event} (hch : c.LoopInvariant)
    (hstep : mainStep S c ev = some (next, effects)) :
    IterationSpec S c ev next effects := by
  cases mainStep_iteration hstep with
  | discardNormal hsl hrj | discardConfig hsl hrj =>
    refine ⟨hch, ?_, ?_⟩
    · simp [messages, admitted, hsl, hrj]
    · simp [WellShaped]
  | normal ha => exact orderWith_spec _ hch ha
  | reprocessedConfig hsl hpc ho =>
    apply orderConfig_spec hch _ ho
    simp [admitted, hsl, hpc]
  | freshConfig hfr ho =>
    apply orderConfig_spec hch _ ho
    simp [admitted, hfr]
  | timer har => exact expireTimer_spec hch har
  | idle =>
    refine ⟨hch, ?_, ?_⟩
    · simp [admitted]
    · simp

variable {chain c final : Chain σ} {events : List Event}

section

variable (hch : c.LoopInvariant) (hrun : main S c events = some (final, effects))

include hch hrun

theorem main_loopInvariant : final.LoopInvariant := by
  apply run_invariant _ hch hrun
  intro _ _ _ _ hs hstep
  exact (mainStep_spec hs hstep).invariant

theorem main_balance :
    effects.flatMap messages ++ final.pendingContents =
      c.pendingContents ++ acceptedMessages S c events := by
  apply run_conservation _ hch hrun
  intro _ _ _ _ hs hstep
  have hsp := mainStep_spec hs hstep
  exact ⟨hsp.invariant, hsp.balance⟩

theorem main_wellShaped : ∀ ef ∈ effects, ef.WellShaped := by
  apply run_effects WellShaped _ hch hrun
  intro _ _ _ _ hs hstep
  have hsp := mainStep_spec hs hstep
  exact ⟨hsp.invariant, hsp.wellShaped⟩

end

/-- Over every run from a fresh chain, the written blocks followed by the
pending batch are the accepted messages in order of arrival, no block is
empty, config messages are alone in their blocks, and the timer is armed
exactly when messages are pending. -/
theorem main_accounts_for_every_message (S : ConsenterSupport σ) (support : σ) (events : List Event)
    {chain : Chain σ} {effects : List (Effect σ)}
    (hrun : main S (newChain support) events = some (chain, effects)) :
    effects.flatMap Effect.messages ++ chain.cutter.pending.map Content.normalMsg =
      acceptedMessages S (newChain support) events ∧
    (∀ state batch, Effect.wroteBlock state batch ∈ effects → batch ≠ []) ∧
    (∀ state batch, Effect.wroteConfigBlock state batch ∈ effects → ∃ env, batch = [env]) ∧
    (chain.timer = true ↔ chain.cutter.pending ≠ []) ∧
    Effect.timerExpiredWithNoPending ∉ effects := by
  have hsr := newChain_loopInvariant support
  have hshp := main_wellShaped hsr hrun
  refine ⟨?_, ?_, ?_, (main_loopInvariant hsr hrun).timer_iff, ?_⟩
  · simpa [Chain.pendingContents, newChain] using main_balance hsr hrun
  · intro _ _ hmem
    exact hshp _ hmem
  · intro _ _ hmem
    exact hshp _ hmem
  · intro hmem
    exact hshp _ hmem

/-- A support whose configuration is its sequence number: it refuses empty
payloads and every config block advances it. -/
def sampleSupport : ConsenterSupport ℕ where
  sequence := id
  processNormalMsg seq env :=
    if env.payload = [] then .error (.error "Message was empty") else .ok seq
  processConfigMsg seq env := .ok (env, seq)
  batchSize _ := .ok { maxMessageCount := 2, preferredMaxBytes := 10 }
  writeBlock seq _ := seq
  writeConfigBlock seq _ := .ok (seq + 1)

/-- Two normal messages around a config message, a stale one that is
refused and one that waits for the timer. -/
def sampleEvents : List Event :=
  [.received ⟨0, .normalMsg { payload := [1], signature := [] }⟩,
    .received ⟨0, .configMsg { payload := [2], signature := [] }⟩,
    .received ⟨0, .normalMsg { payload := [], signature := [] }⟩,
    .received ⟨1, .normalMsg { payload := [3], signature := [] }⟩,
    .timerExpired,
    .received ⟨1, .normalMsg { payload := [4], signature := [] }⟩]

theorem sampleEvents_accounted :
    ∃ chain effects, main sampleSupport (newChain 0) sampleEvents = some (chain, effects) ∧
      chain.cutter.pending = [{ payload := [4], signature := [] }] ∧
      effects.flatMap Effect.messages ++ chain.cutter.pending.map Content.normalMsg =
        acceptedMessages sampleSupport (newChain 0) sampleEvents :=
  ⟨_, _, rfl, rfl, (main_accounts_for_every_message sampleSupport 0 sampleEvents rfl).1⟩

end NopaxosChain

end FabricSequencer
