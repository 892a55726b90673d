import FabricSequencer.PayloadsBuffer

/-!
# The ready signal and the state transfer

Under the mutex, `Push` stores a payload, looks whether the ready channel is
empty and sends a signal.  The consumer receives the signal without the mutex,
so it may run between these steps; its `Pop` has to wait for the mutex.

`requestBlocksInRange` asks peers for blocks.  The next request starts after
the largest number of the response, whatever was asked for.
-/

namespace FabricSequencer.GossipState

/-- The `Push` that holds the mutex, once it has stored its payload. -/
inductive Pushing where
  | testing (payload : Payload)
  | sending

structure Shared where
  state : State
  mutex : Option Pushing

inductive Action where
  | push (payload : Payload)
  | goOn
  | consume (event : Event)

variable (peer : Peer)

namespace Shared

variable (s : Shared)

/-- The `Push` that holds the mutex goes on; it waits while the channel is
full. -/
def goOn : Shared :=
  match s.mutex with
  | none => s
  | some (.testing payload) =>
    if payload.seqNum = s.state.payloads.next ∧ s.state.payloads.ready = false then
      { s with mutex := some .sending }
    else { s with mutex := none }
  | some .sending =>
    if s.state.payloads.ready then s
    else
      { state := { s.state with payloads := { s.state.payloads with ready := true } }
        mutex := none }

/-- An action that has to wait leaves the state as it is. -/
def step : Action → Shared
  | .push payload =>
    let b := s.state.payloads
    if s.mutex.isSome ∨ payload.seqNum < b.next ∨ (b.get payload.seqNum).isSome then s
    else
      { state := { s.state with payloads := { b with buf := payload :: b.buf } }
        mutex := some (.testing payload) }
  | .goOn => s.goOn
  | .consume event =>
    match event, s.mutex with
    | .push _, _ | .pop, some _ => s
    | _, _ => { s with state := s.state.step peer event }

def run (actions : List Action) : Shared := actions.foldl (step peer) s

end Shared

/-- The consumer sends no signal, and it only waits again after a `Pop` that
found nothing. -/
theorem consumer_step {s next : State} {ev : Event}
    (hps : ∀ pay, ev ≠ .push pay) (hstep : s.step peer ev = next) :
    (s.payloads.ready = false → next.payloads.ready = false) ∧
      (next = s ∨ next.loop ≠ .waiting ∨ next.payloads.get next.payloads.next = none) := by
  subst hstep
  cases ev with
  | push pay => exact absurd rfl (hps pay)
  | ready =>
    rw [State.step]
    split_ifs
    · exact ⟨fun _ => rfl, .inr (.inl (by simp))⟩
    · exact ⟨id, .inl rfl⟩
  | pop =>
    rw [State.step]
    split_ifs
    · unfold PayloadsBuffer.pop
      cases hg : s.payloads.get s.payloads.next with
      | none => exact ⟨id, .inr (.inr hg)⟩
      | some =>
        refine ⟨fun hry => ?_, .inr (.inl (by simp))⟩
        dsimp only [PayloadsBuffer.drainReadChannel]
        split_ifs
        · rfl
        · exact hry
    · exact ⟨id, .inl rfl⟩
  | commit =>
    rw [State.step]
    split
    · unfold State.deliver
      split
      · exact ⟨id, .inr (.inl (by simp))⟩
      · split <;> exact ⟨id, .inr (.inl (by simp))⟩
    · exact ⟨id, .inl rfl⟩
  | stop =>
    rw [State.step]
    split_ifs
    · exact ⟨id, .inr (.inl (by simp))⟩
    · exact ⟨id, .inl rfl⟩

namespace Shared

/-- A `Push` on its way to the send is as good as a signal. -/
structure Signals (s : Shared) : Prop where
  delivered : State.Delivered peer True s.state
  free : s.mutex = some .sending → s.state.payloads.ready = false
  wakes : s.state.loop = .waiting → (s.state.payloads.get s.state.payloads.next).isSome →
    s.state.payloads.ready ∨ s.mutex = some .sending ∨
      ∃ payload, s.mutex = some (.testing payload) ∧ payload.seqNum = s.state.payloads.next

variable {peer} {s : Shared} (hsg : Signals peer s)

include hsg

theorem Signals.push (pay : Payload) : Signals peer (s.step peer (.push pay)) := by
  dsimp only [step]
  split_ifs with hrefused
  · exact hsg
  refine ⟨hsg.delivered.withPayloads rfl, nofun, ?_⟩
  intro hwt hnx
  by_cases hs : pay.seqNum = s.state.payloads.next
  · exact .inr (.inr ⟨pay, rfl, hs⟩)
  have hfr : s.mutex = none := by simpa using (not_or.mp hrefused).1
  have hp : (s.state.payloads.get s.state.payloads.next).isSome := by
    rwa [PayloadsBuffer.get, List.find?_cons_of_neg (by simpa using hs)] at hnx
  have hry := hsg.wakes hwt hp
  simp only [hfr, reduceCtorEq, false_and, exists_false, or_false] at hry
  exact .inl hry

theorem Signals.goOn : Signals peer s.goOn := by
  unfold Shared.goOn
  split
  · exact hsg
  next ht =>
    split_ifs with hsend
    · exact ⟨hsg.delivered, fun _ => hsend.2, fun _ _ => .inr (.inl rfl)⟩
    refine ⟨hsg.delivered, nofun, ?_⟩
    intro hwt hnx
    have hry := hsg.wakes hwt hnx
    simp only [ht, Option.some.injEq, reduceCtorEq, Pushing.testing.injEq, false_or,
      exists_eq_left'] at hry
    refine .inl (hry.elim id fun hs => ?_)
    simpa [hs] using hsend
  next =>
    split_ifs
    · exact hsg
    · exact ⟨hsg.delivered.withPayloads rfl, nofun, fun _ _ => .inl rfl⟩

theorem Signals.consume (ev : Event) : Signals peer (s.step peer (.consume ev)) := by
  dsimp only [step]
  split
  · exact hsg
  · exact hsg
  next hps _ =>
    obtain ⟨hry, hc⟩ := consumer_step peer hps rfl
    refine ⟨hsg.delivered.step fun _ _ _ => trivial, fun hs => hry (hsg.free hs), ?_⟩
    dsimp only
    rcases hc with heq | hloop | hnone
    · rw [heq]
      exact hsg.wakes
    · exact fun hwt => absurd hwt hloop
    · simp [hnone]

theorem Signals.run (actions : List Action) : Signals peer (s.run peer actions) := by
  induction actions generalizing s with
  | nil => exact hsg
  | cons action _ ih =>
    apply ih
    cases action with
    | push pay => exact hsg.push pay
    | goOn => exact hsg.goOn
    | consume ev => exact hsg.consume ev

/-- A send does not have to wait, since the channel is empty for it. -/
theorem Signals.goOn_mutex (hmutex : ∀ payload, s.mutex ≠ some (.testing payload)) :
    s.goOn.mutex = none := by
  unfold Shared.goOn
  split
  next hfree => exact hfree
  next payload htesting => exact absurd htesting (hmutex payload)
  next hsending => simp [hsg.free hsending]

omit hsg

theorem goOn_not_testing (payload : Payload) : s.goOn.mutex ≠ some (.testing payload) := by
  unfold Shared.goOn
  split
  next hfree => simp [hfree]
  next => split_ifs <;> simp
  next hsending => split_ifs <;> simp [hsending]

theorem run_consume_mutex (events : List Event) :
    (s.run peer (events.map .consume)).mutex = s.mutex := by
  induction events generalizing s with
  | nil => rfl
  | cons event _ ih =>
    have hstep : (s.step peer (.consume event)).mutex = s.mutex := by
      dsimp only [step]
      split <;> rfl
    exact (ih (s := s.step peer (.consume event))).trans hstep

theorem Signals.push_ends (hsg : Signals peer s) (first second : List Event) :
    (s.run peer (first.map .consume ++ .goOn :: (second.map .consume ++ [.goOn]))).mutex =
      none := by
  let paused := (s.run peer (first.map .consume)).goOn
  have hrun : s.run peer (first.map .consume ++ .goOn :: (second.map .consume ++ [.goOn])) =
      (paused.run peer (second.map .consume)).goOn := by
    simp [paused, Shared.run, step]
  have hpaused : Signals peer paused := (hsg.run (first.map .consume)).goOn
  rw [hrun]
  apply (hpaused.run (second.map .consume)).goOn_mutex
  intro payload
  rw [run_consume_mutex]
  exact goOn_not_testing payload

end Shared

/-- No wake-up is lost: while no `Push` is under way, a consumer that waits
although the next payload is there has a signal.  A `Push` that is under way
ends with its second step from now, whatever the consumer does in between. -/
theorem push_wakes_consumer (peer : Peer) (actions : List Action) :
    let s := ({ state := start peer, mutex := none } : Shared).run peer actions
    (s.mutex = none → s.state.loop = .waiting →
        (s.state.payloads.get s.state.payloads.next).isSome → s.state.payloads.ready) ∧
      Popped peer.height (s.state.processed ++ State.held s.state.loop) ∧
      ∀ first second : List Event,
        (s.run peer (first.map .consume ++ .goOn ::
          (second.map .consume ++ [.goOn]))).mutex = none := by
  have hstart : Shared.Signals peer { state := start peer, mutex := none } :=
    ⟨State.delivered_start peer True, nofun, nofun⟩
  have hsignals := hstart.run actions
  refine ⟨?_, hsignals.delivered.popped, ?_⟩
  · intro hfree hwaiting hnext
    simpa [hfree] using hsignals.wakes hwaiting hnext
  · exact hsignals.push_ends

/-! ## State transfer -/

/-- What a request meets.  A response has the nonce of the request or not, and
`addPayload` of a payload ends its wait for room in the buffer or not. -/
inductive Answer where
  | noPeer
  | closed
  | silence
  | response (sameNonce : Bool) (payloads : List (Payload × Bool))

/-- A call of `requestBlocksInRange` and what it meets; `verify` reads and
verifies the block of a payload.  The end of a request only matters for the
choice of the peer. -/
structure StateTransfer where
  verify : Payload → Except String Unit
  maxRetries : ℤ
  start : ℕ
  last : ℕ
  answers : ℕ → Answer

inductive Progress where
  | asking (prev tryCounts : ℕ)
  | waiting
  | returned

namespace StateTransfer

variable (r : StateTransfer)

def largestSeqNum : ℕ → List (Payload × Bool) → Option (Except String ℕ)
  | max, [] => some (.ok max)
  | max, (payload, room) :: rest =>
    match r.verify payload, room with
    | .error err, _ => some (.error err)
    | .ok (), false => none
    | .ok (), true => largestSeqNum (if max < payload.seqNum then payload.seqNum else max) rest

/-- No result when a wait of `addPayload` does not end. -/
def handleStateResponse (payloads : List (Payload × Bool)) : Option (Except String ℕ) :=
  if payloads.length = 0 then some (.error "Received state transfer response without payload")
  else r.largestSeqNum 0 payloads

def request (prev tryCounts : ℕ) (answer : Answer) : Progress :=
  if r.last < prev ∨ r.maxRetries < tryCounts then .returned
  else
    match answer with
    | .noPeer | .closed => .returned
    | .silence | .response false _ => .asking prev (tryCounts + 1)
    | .response true payloads =>
      match r.handleStateResponse payloads with
      | none => .waiting
      | some (.error _) => .asking prev (tryCounts + 1)
      | some (.ok index) => .asking (uint64 (index + 1)) 0

def requestBlocksInRange (r : StateTransfer) : ℕ → Progress
  | 0 => .asking r.start 0
  | n + 1 =>
    match r.requestBlocksInRange n with
    | .asking prev tryCounts => r.request prev tryCounts (r.answers n)
    | ended => ended

/-- The buffer gets room for a response, and an accepted one leads beyond the
start of its request. -/
def Advances : Prop :=
  ∀ n prev (tryCounts : ℕ), r.requestBlocksInRange n = .asking prev tryCounts →
    prev ≤ r.last → tryCounts ≤ r.maxRetries →
      ∀ payloads, r.answers n = .response true payloads → r.handleStateResponse payloads ≠ none ∧
        ∀ index, r.handleStateResponse payloads = some (.ok index) → prev < uint64 (index + 1)

variable {r} {n prev tryCounts : ℕ}

theorem Advances.step (hd : r.Advances) (hs : r.requestBlocksInRange n = .asking prev tryCounts)
    {next : Progress} (hnx : r.requestBlocksInRange (n + 1) = next) :
    next = .returned ∨ prev ≤ r.last ∧ tryCounts ≤ r.maxRetries ∧
      (next = .asking prev (tryCounts + 1) ∨ ∃ beyond > prev, next = .asking beyond 0) := by
  rw [requestBlocksInRange, hs] at hnx
  dsimp only [request] at hnx
  subst hnx
  split_ifs with hes
  · exact .inl rfl
  rw [not_or, not_lt, not_lt] at hes
  split
  · exact .inl rfl
  · exact .inl rfl
  · exact .inr ⟨hes.1, hes.2, .inl rfl⟩
  · exact .inr ⟨hes.1, hes.2, .inl rfl⟩
  next hn =>
    have hld := hd n prev tryCounts hs hes.1 hes.2 _ hn
    refine .inr ⟨hes.1, hes.2, ?_⟩
    split
    next hwt => exact absurd hwt hld.1
    · exact .inl rfl
    next i hi => exact .inr ⟨_, hld.2 i hi, rfl⟩

theorem ended_stays {ended : Progress} (hed : r.requestBlocksInRange n = ended)
    (hn : ∀ prev tryCounts, ended ≠ .asking prev tryCounts) {m : ℕ} (hle : n ≤ m) :
    r.requestBlocksInRange m = ended := by
  induction m, hle using Nat.le_induction with
  | base => exact hed
  | succ m _ ih =>
    rw [requestBlocksInRange, ih]
    cases ended with
    | asking prev tryCounts => exact absurd rfl (hn prev tryCounts)
    | waiting | returned => rfl

theorem Advances.returns (hd : r.Advances) {n prev tryCounts : ℕ}
    (hs : r.requestBlocksInRange n = .asking prev tryCounts) :
    ∃ m, r.requestBlocksInRange m = .returned := by
  rcases hd.step hs rfl with hr | ⟨hprev, htries, hagain | ⟨beyond, hb, hnx⟩⟩
  · exact ⟨n + 1, hr⟩
  · exact Advances.returns hd hagain
  · exact Advances.returns hd hnx
termination_by (r.last + 1 - prev, (r.maxRetries + 1 - tryCounts).toNat)
decreasing_by
  · exact Prod.Lex.right _ (by omega)
  · exact Prod.Lex.left _ _ (by omega)

/-- The transfer ends and its requests move forward exactly when the responses
advance. -/
theorem returns_forward_iff (r : StateTransfer) :
    ((∃ m, r.requestBlocksInRange m = .returned) ∧
      ∀ n prev tryCounts next, r.requestBlocksInRange n = .asking prev tryCounts →
        r.requestBlocksInRange (n + 1) = .asking next 0 → prev < next) ↔
      r.Advances := by
  constructor
  · rintro ⟨⟨m, hret⟩, hforward⟩ n prev tryCounts hask hpr htr payloads hanswer
    have hstep : r.requestBlocksInRange (n + 1) =
        r.request prev tryCounts (.response true payloads) := by
      rw [requestBlocksInRange, hask, ← hanswer]
    unfold request at hstep
    rw [if_neg (not_or.mpr ⟨not_lt.mpr hpr, not_lt.mpr htr⟩)] at hstep
    dsimp only at hstep
    constructor
    · intro hwa
      rw [hwa] at hstep
      have hwt := ended_stays hstep nofun (le_max_left (n + 1) m)
      rw [ended_stays hret nofun (le_max_right (n + 1) m)] at hwt
      cases hwt
    · intro i hidx
      rw [hidx] at hstep
      exact hforward n prev tryCounts _ hask hstep
  · intro hadv
    refine ⟨hadv.returns (n := 0) rfl, ?_⟩
    intro n prev tryCounts next hask hnx
    rcases hadv.step hask hnx with hret | ⟨-, -, hag | ⟨beyond, hbyn, hmv⟩⟩
    · cases hret
    · cases hag
    · cases hmv
      exact hbyn

/-- A peer that answers every request with the block before its start. -/
def staleForever : StateTransfer where
  verify := fun _ => .ok ()
  maxRetries := 3
  start := 5
  last := 9
  answers := fun _ => .response true [(⟨4, [], none⟩, true)]

theorem staleForever_restarts (n : ℕ) :
    staleForever.requestBlocksInRange (n + 1) = .asking 5 0 := by
  induction n with
  | zero => rfl
  | succ n ih =>
    rw [requestBlocksInRange, ih]
    rfl

theorem staleForever_never_returns : ¬ ∃ m, staleForever.requestBlocksInRange m = .returned := by
  rintro ⟨m, hret⟩
  have hlat := ended_stays hret nofun m.le_succ
  rw [staleForever_restarts] at hlat
  cases hlat

end StateTransfer

end FabricSequencer.GossipState
