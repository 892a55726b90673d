import FabricSequencer.BlockCutter
import FabricSequencer.EffectMachine

/-!
# The main loop of the nopaxos chain

One iteration of `chain.main` is one step of a machine that has no next state
where the program panics.  The events are what the `select` can receive;
receiving on `exitChan` ends the run.  `CreateNextBlock` followed by
`WriteBlock` or `WriteConfigBlock` is one operation of the support, since the
loop always performs the two together.  An effect records the support's state
in which a block was handed over, so that a block can be related to the
configuration in force when it was written.
-/

namespace FabricSequencer
namespace NopaxosChain

open BlockCutter Option

/-- The part of `consensus.ConsenterSupport` the main loop calls.  The state
`σ` holds the channel's configuration and its ledger.  `batchSize` is what the
block cutter reads from the orderer configuration. -/
structure ConsenterSupport (σ : Type) where
  sequence : σ → ℕ
  processNormalMsg : σ → Envelope → Outcome ℕ
  processConfigMsg : σ → Envelope → Outcome (Envelope × ℕ)
  batchSize : σ → Outcome BatchSize
  writeBlock : σ → List Envelope → σ
  writeConfigBlock : σ → List Envelope → Outcome σ

inductive Content where
  | normalMsg (env : Envelope)
  | configMsg (env : Envelope)
deriving DecidableEq

/-- `message`: exactly one of the two envelope fields is set, by `Order` or by
`Configure`. -/
structure Message where
  configSeq : ℕ
  content : Content

inductive Event where
  | received (msg : Message)
  | timerExpired

inductive Effect (σ : Type) where
  | discardedNormal (env : Envelope)
  | discardedConfig (env : Envelope)
  | wroteBlock (support : σ) (batch : List Envelope)
  | wroteConfigBlock (support : σ) (batch : List Envelope)
  | timerExpiredWithNoPending

structure Chain (σ : Type) where
  support : σ
  cutter : Receiver
  timer : Bool

def newChain {σ : Type} (support : σ) : Chain σ where
  support := support
  cutter := newReceiverImpl
  timer := false

variable {σ : Type}

/-- The loop over the batches `Ordered` returned. -/
def writeBatches (S : ConsenterSupport σ) : σ → List (List Envelope) → σ × List (Effect σ)
  | support, [] => (support, [])
  | support, batch :: batches =>
    let (final, effects) := writeBatches S (S.writeBlock support batch) batches
    (final, .wroteBlock support batch :: effects)

/-- The `switch` on the timer after a normal message. -/
def updateTimer (timer pending : Bool) : Bool :=
  if timer && !pending then false
  else if !timer && pending then true
  else timer

variable (S : ConsenterSupport σ) (chain c : Chain σ)

def orderWith (batchSize : BatchSize) (env : Envelope) : Chain σ × List (Effect σ) :=
  let (batches, pending, cutter) := chain.cutter.ordered batchSize env
  let (support, effects) := writeBatches S chain.support batches
  ({ support := support, cutter := cutter,
     timer := updateTimer chain.timer pending }, effects)

def orderNormal (env : Envelope) : Option (Chain σ × List (Effect σ)) :=
  match S.batchSize chain.support with
  | .error _ => none
  | .ok batchSize => some (orderWith S chain batchSize env)

def writeCut (support : σ) : Option (List Envelope) → σ × List (Effect σ)
  | none => (support, [])
  | some batch => (S.writeBlock support batch, [.wroteBlock support batch])

def orderConfig (env : Envelope) : Option (Chain σ × List (Effect σ)) :=
  let (batch, cutter) := chain.cutter.cut
  let (support, effects) := writeCut S chain.support batch
  match S.writeConfigBlock support [env] with
  | .error _ => none
  | .ok next =>
    some ({ support := next, cutter := cutter, timer := false },
      effects ++ [.wroteConfigBlock support [env]])

def receiveMessage (msg : Message) : Option (Chain σ × List (Effect σ)) :=
  let seq := S.sequence chain.support
  match msg.content with
  | .normalMsg env =>
    if msg.configSeq < seq then
      match S.processNormalMsg chain.support env with
      | .error (.panic _) => none
      | .error (.error _) => some (chain, [.discardedNormal env])
      | .ok _ => orderNormal S chain env
    else orderNormal S chain env
  | .configMsg env =>
    if msg.configSeq < seq then
      match S.processConfigMsg chain.support env with
      | .error (.panic _) => none
      | .error (.error _) => some (chain, [.discardedConfig env])
      | .ok (reprocessed, _) => orderConfig S chain reprocessed
    else orderConfig S chain env

def expireTimer : Chain σ × List (Effect σ) :=
  let (batch, cutter) := chain.cutter.cut
  let messages := batch.getD []
  if messages.length = 0 then
    ({ chain with cutter := cutter, timer := false }, [.timerExpiredWithNoPending])
  else
    ({ support := S.writeBlock chain.support messages, cutter := cutter,
       timer := false }, [.wroteBlock chain.support messages])

/-- One iteration of the loop.  A nil timer channel never delivers, so the
loop does not see an expiry while no timer is armed. -/
def mainStep : Event → Option (Chain σ × List (Effect σ))
  | .received msg => receiveMessage S chain msg
  | .timerExpired =>
    if chain.timer then some (expireTimer S chain) else some (chain, [])

def main (events : List Event) : Option (Chain σ × List (Effect σ)) :=
  EffectMachine.run (mainStep S) chain events

/-! ## What one iteration can do -/

theorem updateTimer_eq (timer pending : Bool) : updateTimer timer pending = pending := by
  cases timer <;> cases pending <;> rfl

def admitted : Event → List Content
  | .received msg =>
    match msg.content with
    | .normalMsg env =>
      if msg.configSeq < S.sequence chain.support then
        match S.processNormalMsg chain.support env with
        | .error _ => []
        | .ok _ => [.normalMsg env]
      else [.normalMsg env]
    | .configMsg env =>
      if msg.configSeq < S.sequence chain.support then
        match S.processConfigMsg chain.support env with
        | .error _ => []
        | .ok (reprocessed, _) => [.configMsg reprocessed]
      else [.configMsg env]
  | .timerExpired => []

inductive Iteration (S : ConsenterSupport σ) (chain : Chain σ) :
    Event → Chain σ → List (Effect σ) → Prop where
  | discardNormal {seq : ℕ} {env : Envelope} {text : String}
      (hstale : seq < S.sequence chain.support)
      (hrejected : S.processNormalMsg chain.support env = .error (.error text)) :
      Iteration S chain (.received ⟨seq, .normalMsg env⟩) chain [.discardedNormal env]
  | normal {seq : ℕ} {env : Envelope} {batchSize : BatchSize}
      (haccepted : seq < S.sequence chain.support →
        ∃ newSeq, S.processNormalMsg chain.support env = .ok newSeq)
      (hbatch : S.batchSize chain.support = .ok batchSize) :
      Iteration S chain (.received ⟨seq, .normalMsg env⟩)
        (orderWith S chain batchSize env).1 (orderWith S chain batchSize env).2
  | discardConfig {seq : ℕ} {env : Envelope} {text : String}
      (hstale : seq < S.sequence chain.support)
      (hrejected : S.processConfigMsg chain.support env = .error (.error text)) :
      Iteration S chain (.received ⟨seq, .configMsg env⟩) chain [.discardedConfig env]
  | reprocessedConfig {seq newSeq : ℕ} {env reprocessed : Envelope}
      {next : Chain σ} {effects : List (Effect σ)}
      (hstale : seq < S.sequence chain.support)
      (hprocessed : S.processConfigMsg chain.support env = .ok (reprocessed, newSeq))
      (hordered : orderConfig S chain reprocessed = some (next, effects)) :
      Iteration S chain (.received ⟨seq, .configMsg env⟩) next effects
  | freshConfig {seq : ℕ} {env : Envelope} {next : Chain σ} {effects : List (Effect σ)}
      (hfresh : ¬ seq < S.sequence chain.support)
      (hordered : orderConfig S chain env = some (next, effects)) :
      Iteration S chain (.received ⟨seq, .configMsg env⟩) next effects
  | timer (harmed : chain.timer = true) :
      Iteration S chain .timerExpired (expireTimer S chain).1 (expireTimer S chain).2
  | idle (hidle : chain.timer = false) : Iteration S chain .timerExpired chain []

variable {S : ConsenterSupport σ} {c next : Chain σ} {seq : ℕ}
  {env : Envelope} {effects : List (Effect σ)}

theorem orderNormal_iteration
    (ha : seq < S.sequence c.support → ∃ newSeq, S.processNormalMsg c.support env = .ok newSeq)
    (ho : orderNormal S c env = some (next, effects)) :
    Iteration S c (.received ⟨seq, .normalMsg env⟩) next effects := by
  unfold orderNormal at ho
  cases hbt : S.batchSize c.support with
  | error => simp [hbt] at ho
  | ok =>
    simp only [hbt, some.injEq] at ho
    have hn := Iteration.normal ha hbt
    rwa [ho] at hn

theorem receiveMessage_normal_iteration
    (hstep : receiveMessage S c ⟨seq, .normalMsg env⟩ = some (next, effects)) :
    Iteration S c (.received ⟨seq, .normalMsg env⟩) next effects := by
  simp only [receiveMessage] at hstep
  by_cases hsl : seq < S.sequence c.support
  · rw [if_pos hsl] at hstep
    rcases hpc : S.processNormalMsg c.support env with (text | text) | newSeq
    · simp only [hpc, some.injEq, Prod.mk.injEq] at hstep
      rcases hstep with ⟨rfl, rfl⟩
      exact .discardNormal hsl hpc
    · simp [hpc] at hstep
    · simp only [hpc] at hstep
      exact orderNormal_iteration (fun _ => ⟨newSeq, hpc⟩) hstep
  · rw [if_neg hsl] at hstep
    exact orderNormal_iteration (fun hlt => absurd hlt hsl) hstep

theorem receiveMessage_config_iteration
    (hstep : receiveMessage S c ⟨seq, .configMsg env⟩ = some (next, effects)) :
    Iteration S c (.received ⟨seq, .configMsg env⟩) next effects := by
  simp only [receiveMessage] at hstep
  by_cases hsl : seq < S.sequence c.support
  · rw [if_pos hsl] at hstep
    rcases hpc : S.processConfigMsg c.support env with (text | text) | ⟨reprocessed, newSeq⟩
    · simp only [hpc, some.injEq, Prod.mk.injEq] at hstep
      rcases hstep with ⟨rfl, rfl⟩
      exact .discardConfig hsl hpc
    · simp [hpc] at hstep
    · simp only [hpc] at hstep
      exact .reprocessedConfig hsl hpc hstep
  · rw [if_neg hsl] at hstep
    exact .freshConfig hsl hstep

theorem mainStep_iteration {ev : Event} (hstep : mainStep S c ev = some (next, effects)) :
    Iteration S c ev next effects := by
  cases ev with
  | timerExpired =>
    simp only [mainStep] at hstep
    by_cases har : c.timer = true
    · rw [if_pos har, some.injEq] at hstep
      have htm := Iteration.timer (S := S) har
      rwa [hstep] at htm
    · rw [if_neg har] at hstep
      simp only [some.injEq, Prod.mk.injEq] at hstep
      rcases hstep with ⟨rfl, rfl⟩
      exact .idle (by simpa using har)
  | received msg =>
    rcases msg with ⟨_, content⟩
    cases content with
    | normalMsg => exact receiveMessage_normal_iteration hstep
    | configMsg => exact receiveMessage_config_iteration hstep

theorem expireTimer_of_pending_nil (S : ConsenterSupport σ) {c : Chain σ}
    (hn : c.cutter.pending = []) :
    expireTimer S c =
      ({ c with cutter := c.cutter.cut.2, timer := false }, [.timerExpiredWithNoPending]) := by
  have hl : c.cutter.pending.length = 0 := by
    rw [hn]
    rfl
  exact if_pos hl

theorem expireTimer_of_pending_ne_nil (S : ConsenterSupport σ) {c : Chain σ}
    (hpn : c.cutter.pending ≠ []) :
    expireTimer S c =
      ({ support := S.writeBlock c.support c.cutter.pending,
         cutter := c.cutter.cut.2, timer := false },
        [.wroteBlock c.support c.cutter.pending]) := by
  have hl : ¬ c.cutter.pending.length = 0 := by
    simpa using hpn
  exact if_neg hl

theorem orderConfig_eq_some (ho : orderConfig S c env = some (next, effects)) :
    let cut := writeCut S c.support c.cutter.pendingBatch
    S.writeConfigBlock cut.1 [env] = .ok next.support ∧
      next.cutter = c.cutter.cut.2 ∧ next.timer = false ∧
      effects = cut.2 ++ [.wroteConfigBlock cut.1 [env]] := by
  unfold orderConfig at ho
  simp only [Receiver.cut] at ho
  dsimp only
  cases hwt : S.writeConfigBlock (writeCut S c.support c.cutter.pendingBatch).1 [env] with
  | error => simp [hwt] at ho
  | ok =>
    simp only [hwt, some.injEq, Prod.mk.injEq] at ho
    rcases ho with ⟨rfl, rfl⟩
    exact ⟨rfl, rfl, rfl, rfl⟩

end NopaxosChain

end FabricSequencer
