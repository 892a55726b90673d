import FabricSequencer.BlockVerification

/-!
# The channels of the registrar

A channel is in `chains`, in `followers` or in `pendingRemoval`.  A call is made under the
registrar's lock and changes the entries of one channel; the config block of a `JoinChannel` may
name another channel, whose ledger it makes.  A ledger is removed in the background, which
reports back under the lock.

What the ledger factory, the join-block repository and the constructors of chains answer is given
with each call.  A panic ends the process.
-/

namespace FabricSequencer.Registrar

open Deliverclient (withMessage)

inductive Status where
  | active
  | onboarding
  | inactive
  | failed
deriving DecidableEq

structure Channel where
  chain : Bool := false
  follower : Bool := false
  pendingRemoval : Option Status := none
  joinBlock : Bool := false
  ledger : Bool := false
  /-- the goroutines of `removeLedgerAsync` -/
  removals : ℕ := 0

/-- The file repository may do its work and still fail to sync the directory. -/
inductive Written where
  | ok
  | error (err : String) (done : Bool)

structure JoinCall where
  blockChannel : GoString
  ledgerMade : Bool
  initLedgerResources : Except String Unit
  marshal : Except String Unit
  save : Written
  isChannelMember : Except String Bool
  number : ℕ
  height : ℕ
  append : Except String Unit
  newChainSupport : Except String Unit
  removeJoinBlock : Written
  newBlockPullerCreator : Except String Unit
  newFollower : Except String Unit

abbrev Answer := Channel × Except String Unit

variable (id : GoString) (c : Channel)

def Channel.save : Written → Answer
  | .ok =>
    if c.joinBlock then (c, .error "file already exists")
    else ({ c with joinBlock := true }, .ok ())
  | .error err done => ({ c with joinBlock := c.joinBlock || done }, .error err)

def Channel.removeJoinBlock : Written → Answer
  | .ok => ({ c with joinBlock := false }, .ok ())
  | .error err done => ({ c with joinBlock := c.joinBlock && !done },
      .error ("failed removing joinblock for channel " ++ printed id ++ ": " ++ err))

variable (call : JoinCall)

def Channel.createAsMember : Except String Channel := do
  if call.height = 0 then
    withMessage "failed to append join block to the ledger" call.append
  withMessage "failed to create chain support" call.newChainSupport
  return { c with chain := true }

def Channel.createFollower (newBlockPullerCreator newFollower : Except String Unit) :
    Except String Channel := do
  withMessage ("failed to create BlockPullerFactory for channel " ++ printed id)
    newBlockPullerCreator
  withMessage ("failed to create follower for channel " ++ printed id) newFollower
  return { c with follower := true }

/-- A deferred function of `JoinChannel`, which looks at the named result. -/
def Answer.deferred (clean : Channel → Channel) : Answer → Answer
  | (c, .ok _) => (c, .ok ())
  | (c, .error err) => (clean c, .error err)

/-- `JoinChannel` after the join block is saved. -/
def Channel.joinSaved : Answer :=
  match withMessage "failed to determine cluster membership from join-block"
      call.isChannelMember with
  | .error err => (c, .error err)
  | .ok isMember =>
    if call.number = 0 ∧ isMember then
      match c.createAsMember call with
      | .error err => (c, .error err)
      | .ok created => created.removeJoinBlock id call.removeJoinBlock
    else
      match withMessage "failed to create follower"
          (c.createFollower id call.newBlockPullerCreator call.newFollower) with
      | .error err => (c, .error err)
      | .ok created => (created, .ok ())

/-- `JoinChannel` after the maps are looked up. -/
def Channel.joinChannel : Answer :=
  Answer.deferred ({ · with ledger := false }) <|
    match call.initLedgerResources, withMessage "failed marshaling joinblock" call.marshal with
    | .error err, _ => (c, .error err)
    | .ok _, .error err => (c, .error err)
    | .ok _, .ok _ =>
      match c.save call.save with
      | (saved, .error err) => (saved,
          .error ("failed saving joinblock to file repo for channel " ++ printed id ++ ": " ++ err))
      | (saved, .ok _) => Answer.deferred ({ · with joinBlock := false }) (saved.joinSaved id call)

def Channel.refusal : Option String :=
  match c.pendingRemoval with
  | some .failed => some "channel removal failure"
  | some _ => some "channel pending removal"
  | none => if c.chain || c.follower then some "channel already exists" else none

/-- The status is what `StatusReport` says of the chain that is removed. -/
def Channel.removeChannel (status : Status) (removeJoinBlock : Written) : Answer :=
  if c.pendingRemoval.any (· ≠ .failed) then (c, .error "channel pending removal")
  else if c.chain then
    ({ c with chain := false, pendingRemoval := some status, removals := c.removals + 1 }, .ok ())
  else if c.follower then
    match c.removeJoinBlock id removeJoinBlock with
    | (removed, .error err) => (removed, .error err)
    | (removed, .ok _) =>
      ({ removed with
          follower := false, pendingRemoval := some status, removals := c.removals + 1 }, .ok ())
  else (c, .error "channel does not exist")

/-- The end of a goroutine of `removeLedgerAsync`. -/
def Channel.ledgerRemoved (result : Except String Unit) : Channel :=
  match c.removals, result with
  | 0, _ => c
  | removals + 1, .error _ => { c with pendingRemoval := some .failed, removals := removals }
  | removals + 1, .ok _ =>
    { c with pendingRemoval := none, ledger := false, removals := removals }

def Channel.switchFollowerToChain (locked : Bool)
    (createNewChain : Except String Unit) (removeJoinBlock : Written) : Option Channel :=
  if !locked then some c
  else if c.chain then none
  else
    match createNewChain, removeJoinBlock with
    | .ok _, .ok =>
      some { c with follower := false, chain := true, ledger := true, joinBlock := false }
    | _, _ => none

def Channel.switchChainToFollower
    (initLedgerResources newBlockPullerCreator newFollower : Except String Unit) :
    Option Channel :=
  if !c.chain then some c
  else if c.follower then none
  else
    match initLedgerResources,
      { c with chain := false, ledger := true }.createFollower id newBlockPullerCreator
        newFollower with
    | .ok _, .ok created => some created
    | _, _ => none

inductive Call where
  | joinChannel (call : JoinCall)
  | removeChannel (status : Status) (removeJoinBlock : Written)
  | ledgerRemoved (result : Except String Unit)
  | switchFollowerToChain (locked : Bool) (createNewChain : Except String Unit)
      (removeJoinBlock : Written)
  | switchChainToFollower
      (initLedgerResources newBlockPullerCreator newFollower : Except String Unit)

abbrev Channels := GoString → Channel

variable (channels chs : Channels)

def Channels.init (call : JoinCall) : Channels :=
  if call.ledgerMade then
    Function.update channels call.blockChannel
      { channels call.blockChannel with ledger := true }
  else channels

/-- The answer of a `JoinChannel`, unless the channel is in one of the maps. -/
def Channels.join (call : JoinCall) : Option Answer :=
  if (channels id).refusal.isNone then some ((channels.init call id).joinChannel id call) else none

def Channels.step : Call → Option Channels
  | .joinChannel call =>
    match channels.join id call with
    | none => some channels
    | some answer => some (Function.update (channels.init call) id answer.1)
  | .removeChannel status removeJoinBlock => some (Function.update channels id
      ((channels id).removeChannel id status removeJoinBlock).1)
  | .ledgerRemoved result => some (Function.update channels id ((channels id).ledgerRemoved result))
  | .switchFollowerToChain locked createNewChain removeJoinBlock =>
    ((channels id).switchFollowerToChain locked createNewChain removeJoinBlock).map
      (Function.update channels id)
  | .switchChainToFollower initLedgerResources newBlockPullerCreator newFollower =>
    ((channels id).switchChainToFollower id initLedgerResources newBlockPullerCreator
      newFollower).map (Function.update channels id)

def Channel.OneRole : Prop :=
  (c.chain = true → c.follower = false ∧ c.pendingRemoval = none) ∧
    (c.follower = true → c.pendingRemoval = none)

def Channel.Absent : Prop :=
  c.chain = false ∧ c.follower = false ∧ c.pendingRemoval = none ∧ c.joinBlock = false ∧
    c.ledger = false

/-- Over the whole run a channel has one role, and a failed join leaves nothing. -/
def Channels.Proper (channels : Channels) : List (GoString × Call) → Prop
  | [] => ∀ id, (channels id).OneRole
  | (id, event) :: rest =>
    (∀ id, (channels id).OneRole) ∧
    (∀ call err c, event = .joinChannel call → channels.join id call = some (c, .error err) →
      c.Absent) ∧
    ∀ next, channels.step id event = some next → next.Proper rest

/-- The join block cannot be removed when the chain is in its map already. -/
def JoinCall.FailsLate : Prop :=
  call.isChannelMember = .ok true ∧ call.number = 0 ∧
    (call.height = 0 → call.append = .ok ()) ∧ call.newChainSupport = .ok () ∧
    call.removeJoinBlock ≠ .ok

/-- The repository fails where `JoinChannel` does not clean up, or a channel becomes a chain while
it is being removed. -/
def Channel.Hazard : Call → Prop
  | .joinChannel call => c.refusal = none ∧ call.initLedgerResources = .ok () ∧
      call.marshal = .ok () ∧
      ((∃ err, call.save = .error err true) ∨ call.save = .ok ∧ call.FailsLate)
  | .switchFollowerToChain locked createNewChain removeJoinBlock =>
    locked = true ∧ c.chain = false ∧ createNewChain = .ok () ∧ removeJoinBlock = .ok ∧
      c.pendingRemoval ≠ none
  | _ => False

def Channels.Spared (channels : Channels) : List (GoString × Call) → Prop
  | [] => True
  | (id, event) :: rest => ¬ (channels id).Hazard event ∧
      ∀ next, channels.step id event = some next → next.Spared rest

inductive Found where
  | nothing
  | member
  | follower (joinBlock : Bool)

def Found.channel : Found → Channel
  | .nothing => {}
  | .member => { chain := true, ledger := true }
  | .follower joinBlock => { follower := true, joinBlock := joinBlock, ledger := true }

@[mk_iff] structure Channel.Sound : Prop where
  oneRole : c.OneRole
  joinBlock : c.joinBlock = true → c.follower = true
  removals : c.removals = 0 ∨ c.removals = 1 ∧ c.pendingRemoval ≠ none

variable {id} {c : Channel} {channels chs next : Channels} {call : JoinCall}

theorem Channel.refusal_eq_none_iff :
    c.refusal = none ↔ c.chain = false ∧ c.follower = false ∧ c.pendingRemoval = none := by
  unfold Channel.refusal
  rcases c.pendingRemoval with _ | (_ | _ | _ | _) <;> simp

variable {created : Channel}

theorem Channel.createAsMember_eq_ok_iff :
    c.createAsMember call = .ok created ↔
      (call.height = 0 → call.append = .ok ()) ∧ call.newChainSupport = .ok () ∧
        created = { c with chain := true } := by
  unfold Channel.createAsMember
  by_cases hht : call.height = 0
  · cases call.append <;> cases call.newChainSupport <;>
      simp [hht, withMessage, Except.mapError, bind, Except.bind, pure, Except.pure, eq_comm]
  · cases call.newChainSupport <;>
      simp [hht, withMessage, Except.mapError, bind, Except.bind, pure, Except.pure, eq_comm]

theorem Channel.createFollower_eq_ok {newBlockPullerCreator newFollower : Except String Unit}
    (hc : c.createFollower id newBlockPullerCreator newFollower = .ok created) :
    created = { c with follower := true } := by
  obtain ⟨_, -, hc⟩ := of_bind hc
  obtain ⟨_, -, hc⟩ := of_bind hc
  cases hc
  rfl

/-- The ways in which `JoinChannel` ends after the join block is saved. -/
inductive Joined (c : Channel) (call : JoinCall) : Answer → Prop
  | failed (err : String) (hearly : ¬ call.FailsLate) : Joined c call (c, .error err)
  | late (err : String) (joinBlock : Bool) (hlate : call.FailsLate) :
      Joined c call ({ c with chain := true, joinBlock := joinBlock }, .error err)
  | member (hearly : ¬ call.FailsLate) :
      Joined c call ({ c with chain := true, joinBlock := false }, .ok ())
  | follower (hearly : ¬ call.FailsLate) : Joined c call ({ c with follower := true }, .ok ())

theorem joinSaved_joined : Joined c call (c.joinSaved id call) := by
  unfold Channel.joinSaved
  cases hm : call.isChannelMember with
  | error => exact .failed _ fun hlt => by simp [hm, JoinCall.FailsLate] at hlt
  | ok isMember =>
    simp only [withMessage, Except.mapError]
    by_cases hf : call.number = 0 ∧ isMember = true
    · rw [if_pos hf]
      obtain ⟨hn, rfl⟩ := hf
      cases hc : c.createAsMember call with
      | error =>
        refine .failed _ fun hlt => ?_
        have hr : c.createAsMember call = .ok _ :=
          Channel.createAsMember_eq_ok_iff.mpr ⟨hlt.2.2.1, hlt.2.2.2.1, rfl⟩
        rw [hc] at hr
        cases hr
      | ok =>
        obtain ⟨hp, hs, rfl⟩ := Channel.createAsMember_eq_ok_iff.mp hc
        cases hv : call.removeJoinBlock with
        | ok => exact .member fun hlt => hlt.2.2.2.2 hv
        | error => exact .late _ _ ⟨hm, hn, hp, hs, by simp [hv]⟩
    · rw [if_neg hf]
      have hea : ¬ call.FailsLate := by
        rintro ⟨hlt, hn, -⟩
        rw [hm] at hlt
        exact hf ⟨hn, Except.ok.inj hlt⟩
      cases hc : c.createFollower id call.newBlockPullerCreator call.newFollower with
      | error => exact .failed _ hea
      | ok =>
        rw [Channel.createFollower_eq_ok hc]
        exact .follower hea

theorem Channel.OneRole.not_present (hrl : c.OneRole) (hpn : c.pendingRemoval ≠ none) :
    c.chain = false ∧ c.follower = false := by
  constructor
  · by_contra hchain
    exact hpn (hrl.1 (by simpa using hchain)).2
  · by_contra hfol
    exact hpn (hrl.2 (by simpa using hfol))

section

variable (hsn : c.Sound)

include hsn

theorem Channel.Sound.joinChannel (hfr : c.refusal = none) :
    (¬ c.Hazard (.joinChannel call) → (c.joinChannel id call).1.Sound) ∧
    (∀ err, (c.joinChannel id call).2 = .error err →
      ((c.joinChannel id call).1.Absent ↔ ¬ c.Hazard (.joinChannel call))) ∧
    (c.Hazard (.joinChannel call) → ∃ err, (c.joinChannel id call).2 = .error err) := by
  obtain ⟨_, hf, hpn⟩ := Channel.refusal_eq_none_iff.mp hfr
  have hb : c.joinBlock = false := by
    by_contra hb
    simp [hsn.joinBlock (by simpa using hb)] at hf
  have hr : c.removals = 0 := hsn.removals.resolve_right fun hbs => hbs.2 hpn
  simp only [Channel.Hazard, hfr, true_and, Channel.Absent, Channel.sound_iff, Channel.OneRole]
  unfold Channel.joinChannel
  cases hin : call.initLedgerResources with
  | error => simp [Answer.deferred, *]
  | ok =>
    cases hm : call.marshal with
    | error => simp [Answer.deferred, withMessage, Except.mapError, *]
    | ok =>
      cases hsa : call.save with
      | error =>
        simp [Answer.deferred, withMessage, Except.mapError, Channel.save, *]
      | ok =>
        have hsv : c.save .ok = ({ c with joinBlock := true }, .ok ()) := by
          simp [Channel.save, hb]
        have hj : Joined { c with joinBlock := true } call
            (Channel.joinSaved id { c with joinBlock := true } call) := joinSaved_joined
        simp only [withMessage, Except.mapError, hsv]
        generalize Channel.joinSaved id { c with joinBlock := true } call = answer at hj ⊢
        cases hj with
        | failed | late | member | follower => simp [Answer.deferred, *]

theorem Channel.Sound.removeChannel (status : Status)
    (removeJoinBlock : Written) : (c.removeChannel id status removeJoinBlock).1.Sound := by
  obtain ⟨hrl, hb, hr⟩ := hsn
  unfold Channel.removeChannel
  split_ifs with hpend hchain hfol
  · exact ⟨hrl, hb, hr⟩
  · have hrl := hrl.1 hchain
    have hid : c.removals = 0 := hr.resolve_right fun hbs => hbs.2 hrl.2
    simpa [Channel.sound_iff, Channel.OneRole, hrl, hid] using hb
  · have hrl := hrl.2 hfol
    have hid : c.removals = 0 := hr.resolve_right fun hbs => hbs.2 hrl
    cases removeJoinBlock <;>
      simp [Channel.removeJoinBlock, Channel.sound_iff, Channel.OneRole, *]
  · exact ⟨hrl, hb, hr⟩

theorem Channel.Sound.ledgerRemoved (r : Except String Unit) : (c.ledgerRemoved r).Sound := by
  obtain ⟨hrl, hb, hr⟩ := hsn
  rcases hr with hid | ⟨hn, hpn⟩
  · simp only [Channel.ledgerRemoved, hid]
    exact ⟨hrl, hb, .inl hid⟩
  · obtain ⟨hch, hf⟩ := hrl.not_present hpn
    cases r <;>
      simpa [Channel.ledgerRemoved, hn, Channel.sound_iff, Channel.OneRole, hch, hf] using hb

theorem Channel.Sound.switchFollowerToChain {locked : Bool}
    {createNewChain : Except String Unit} {removeJoinBlock : Written}
    (hsf : ¬ c.Hazard (.switchFollowerToChain locked createNewChain removeJoinBlock))
    (hs : c.switchFollowerToChain locked createNewChain removeJoinBlock = some created) :
    created.Sound := by
  unfold Channel.switchFollowerToChain at hs
  split_ifs at hs with hl hch
  · cases hs
    exact hsn
  split at hs
  · cases hs
    have hpn : c.pendingRemoval = none := by
      by_contra hpn
      exact hsf ⟨by simpa using hl, by simpa using hch, rfl, rfl, hpn⟩
    simpa [Channel.sound_iff, Channel.OneRole, hpn] using hsn.removals
  · cases hs

theorem Channel.Sound.switchChainToFollower
    {initLedgerResources newBlockPullerCreator newFollower : Except String Unit}
    (hs : c.switchChainToFollower id initLedgerResources newBlockPullerCreator newFollower =
      some created) : created.Sound := by
  unfold Channel.switchChainToFollower at hs
  split_ifs at hs with hchain hfol
  · cases hs
    exact hsn
  split at hs
  next hc =>
    cases hs
    have hpn := (hsn.oneRole.1 (by simpa using hchain)).2
    rw [Channel.createFollower_eq_ok hc]
    simpa [Channel.sound_iff, Channel.OneRole, hpn] using hsn.removals
  · cases hs

end

theorem init_apply (chs : Channels) (call : JoinCall) (other : GoString) :
    ∃ ledger, chs.init call other = { chs other with ledger := ledger } := by
  unfold Channels.init
  split_ifs
  · by_cases ho : other = call.blockChannel
    · exact ⟨true, by simp [ho]⟩
    · exact ⟨_, Function.update_of_ne ho _ _⟩
  · exact ⟨_, rfl⟩

theorem update_all {kept : Channel → Prop} (ha : ∀ id, kept (chs id)) (hc : kept c)
    (other : GoString) : kept (Function.update chs id c other) := by
  by_cases ho : other = id
  · rw [ho, Function.update_self]
    exact hc
  · rw [Function.update_of_ne ho]
    exact ha other

theorem init_sound (hsn : ∀ id, (chs id).Sound) (call : JoinCall) (other : GoString) :
    (chs.init call other).Sound := by
  obtain ⟨_, hin⟩ := init_apply chs call other
  rw [hin]
  exact ⟨(hsn other).oneRole, (hsn other).joinBlock, (hsn other).removals⟩

theorem join_spec (hsn : ∀ id, (chs id).Sound) (hfr : (chs id).refusal = none)
    {answer : Answer} (hn : (chs.init call id).joinChannel id call = answer) :
    (¬ (chs id).Hazard (.joinChannel call) → answer.1.Sound) ∧
    (∀ err, answer.2 = .error err → (answer.1.Absent ↔ ¬ (chs id).Hazard (.joinChannel call))) ∧
    ((chs id).Hazard (.joinChannel call) → ∃ err, answer.2 = .error err) := by
  obtain ⟨_, hin⟩ := init_apply chs call id
  have ht := init_sound hsn call id
  rw [hin] at ht hn
  rw [← hn]
  exact ht.joinChannel hfr

theorem step_sound {ev : Call} (hsn : ∀ id, (chs id).Sound) (hsf : ¬ (chs id).Hazard ev)
    (hstep : chs.step id ev = some next) (other : GoString) : (next other).Sound := by
  cases ev with
  | joinChannel call =>
    simp only [Channels.step, Channels.join] at hstep
    split_ifs at hstep with hfree <;> cases hstep
    · rw [Option.isNone_iff_eq_none] at hfree
      exact update_all (init_sound hsn call) ((join_spec hsn hfree rfl).1 hsf) other
    · exact hsn other
  | removeChannel status removeJoinBlock =>
    cases hstep
    exact update_all hsn ((hsn id).removeChannel status removeJoinBlock) other
  | ledgerRemoved r =>
    cases hstep
    exact update_all hsn ((hsn id).ledgerRemoved r) other
  | switchFollowerToChain =>
    obtain ⟨_, hs, rfl⟩ := Option.map_eq_some_iff.mp hstep
    exact update_all hsn ((hsn id).switchFollowerToChain hsf hs) other
  | switchChainToFollower =>
    obtain ⟨_, hs, rfl⟩ := Option.map_eq_some_iff.mp hstep
    exact update_all hsn ((hsn id).switchChainToFollower hs) other

theorem Channels.Proper.oneRole {evs : List (GoString × Call)}
    (hp : chs.Proper evs) (id : GoString) : (chs id).OneRole := by
  cases evs with
  | nil => exact hp id
  | cons => exact hp.1 id

theorem Channels.Proper.not_hazard {ev : Call} {tl : List (GoString × Call)}
    (hp : chs.Proper ((id, ev) :: tl)) (hsn : ∀ id, (chs id).Sound) : ¬ (chs id).Hazard ev := by
  intro hh
  obtain ⟨-, htr, hnx⟩ := hp
  cases ev with
  | joinChannel call =>
    have hjn : chs.join id call = some ((chs.init call id).joinChannel id call) := by
      rw [Channels.join, if_pos (by simp [hh.1])]
    generalize hn : (chs.init call id).joinChannel id call = answer at hjn
    obtain ⟨c, r⟩ := answer
    have hsp := join_spec hsn hh.1 hn
    obtain ⟨err, rfl⟩ : ∃ err, r = .error err := hsp.2.2 hh
    exact (hsp.2.1 err rfl).mp (htr call err c rfl hjn) hh
  | switchFollowerToChain =>
    obtain ⟨rfl, hch, rfl, rfl, hpn⟩ := hh
    have hrl := (hnx (Function.update chs id
      { chs id with follower := false, chain := true, ledger := true, joinBlock := false })
      (by simp [Channels.step, Channel.switchFollowerToChain, hch])).oneRole id
    rw [Function.update_self] at hrl
    exact hpn (hrl.1 rfl).2
  | removeChannel | ledgerRemoved | switchChainToFollower => exact hh

theorem proper_iff_of_sound (hsn : ∀ id, (chs id).Sound)
    (events : List (GoString × Call)) : chs.Proper events ↔ chs.Spared events := by
  induction events generalizing chs with
  | nil => exact iff_of_true (fun id => (hsn id).oneRole) trivial
  | cons head _ ih =>
    obtain ⟨id, _⟩ := head
    constructor
    · intro hp
      have hsf := hp.not_hazard hsn
      exact ⟨hsf, fun next hstep =>
        (ih (step_sound hsn hsf hstep)).mp (hp.2.2 next hstep)⟩
    rintro ⟨hsf, hs⟩
    refine ⟨fun id => (hsn id).oneRole, ?_, fun next hstep =>
      (ih (step_sound hsn hsf hstep)).mpr (hs next hstep)⟩
    rintro call err c rfl hjn
    rw [Channels.join] at hjn
    split_ifs at hjn with hfree
    rw [Option.isNone_iff_eq_none] at hfree
    exact ((join_spec hsn hfree (Option.some.inj hjn)).2.1 err rfl).mpr hsf

/-- A run of the registrar is proper exactly when it is spared the three hazards. -/
theorem proper_iff_spared (found : GoString → Found) (events : List (GoString × Call)) :
    Channels.Proper (fun id => (found id).channel) events ↔
      Channels.Spared (fun id => (found id).channel) events := by
  refine proper_iff_of_sound ?_ events
  intro id
  cases found id <;> simp [Found.channel, Channel.sound_iff, Channel.OneRole]

/-- The join block of the first block of a channel, with a repository that cannot remove it. -/
def unremovedJoin : JoinCall where
  blockChannel := ascii "c"
  ledgerMade := true
  initLedgerResources := .ok ()
  marshal := .ok ()
  save := .ok
  isChannelMember := .ok true
  number := 0
  height := 0
  append := .ok ()
  newChainSupport := .ok ()
  removeJoinBlock := .error "permission denied" false
  newBlockPullerCreator := .ok ()
  newFollower := .ok ()

theorem failed_join_leaves_chain :
    ¬ Channels.Proper (fun _ => Found.nothing.channel)
      [(ascii "c", .joinChannel unremovedJoin)] := by
  rintro ⟨-, htr, -⟩
  have habs := htr unremovedJoin _ _ rfl rfl
  exact Bool.noConfusion habs.1

/-! ## Channels that are stuck -/

/-- A `JoinChannel` with the first block of the channel, in which nothing fails. -/
def genesisJoin (id : GoString) (ledgerMade isMember : Bool) (height : ℕ) : JoinCall where
  blockChannel := id
  ledgerMade := ledgerMade
  initLedgerResources := .ok ()
  marshal := .ok ()
  save := .ok
  isChannelMember := .ok isMember
  number := 0
  height := height
  append := .ok ()
  newChainSupport := .ok ()
  removeJoinBlock := .ok
  newBlockPullerCreator := .ok ()
  newFollower := .ok ()

/-- The channel can be removed, or it can be joined, if nothing fails from now on. -/
def Channels.Recoverable (channels : Channels) (id : GoString) : Prop :=
  (∀ status, ((channels id).removeChannel id status .ok).2 = .ok ()) ∨
    ∀ ledgerMade isMember height, ∃ c,
      channels.join id (genesisJoin id ledgerMade isMember height) = some (c, .ok ())

def Call.Participates : Call → Prop
  | .switchFollowerToChain _ _ _ => False
  | .switchChainToFollower _ _ _ => False
  | _ => True

/-- The states that `JoinChannel`, `RemoveChannel` and the ends of ledger removals lead to. -/
inductive Reached (found : GoString → Found) : Channels → Prop
  | started : Reached found fun id => (found id).channel
  | next {channels next : Channels} (id : GoString) (event : Call)
      (before : Reached found channels) (participates : event.Participates)
      (step : channels.step id event = some next) : Reached found next

/-- A channel that is not being removed has no pending removal, or one that has failed. -/
@[mk_iff] structure Channel.Tracked (c : Channel) : Prop where
  oneRole : c.OneRole
  removals : c.removals = 0 ∧ (c.pendingRemoval = none ∨ c.pendingRemoval = some .failed) ∨
    c.removals = 1 ∧ c.pendingRemoval ≠ none

theorem save_eq (wr : Written) :
    ∃ joinBlock, (c.save wr).1 = { c with joinBlock := joinBlock } := by
  unfold Channel.save
  split
  · split_ifs <;> exact ⟨_, rfl⟩
  · exact ⟨_, rfl⟩

theorem joinChannel_keeps (id : GoString) (c : Channel) (call : JoinCall) :
    (c.joinChannel id call).1.pendingRemoval = c.pendingRemoval ∧
      (c.joinChannel id call).1.removals = c.removals ∧
      ((c.joinChannel id call).1.chain = c.chain ∨
        (c.joinChannel id call).1.follower = c.follower) := by
  unfold Channel.joinChannel
  cases call.initLedgerResources with
  | error => exact ⟨rfl, rfl, .inl rfl⟩
  | ok =>
    cases call.marshal with
    | error => exact ⟨rfl, rfl, .inl rfl⟩
    | ok =>
      obtain ⟨joinBlock, hsv⟩ := save_eq (c := c) call.save
      simp only [withMessage, Except.mapError]
      generalize c.save call.save = answer at hsv ⊢
      obtain ⟨_, _ | _⟩ := answer <;> subst hsv
      · exact ⟨rfl, rfl, .inl rfl⟩
      have hj : Joined _ call (Channel.joinSaved id _ call) :=
        joinSaved_joined (c := { c with joinBlock := joinBlock })
      dsimp only
      generalize Channel.joinSaved id { c with joinBlock := joinBlock } call = answer at hj ⊢
      cases hj with
      | failed | follower => exact ⟨rfl, rfl, .inl rfl⟩
      | late | member => exact ⟨rfl, rfl, .inr rfl⟩

theorem Channel.Tracked.joinChannel (htr : c.Tracked) (hfr : c.refusal = none) :
    (c.joinChannel id call).1.Tracked := by
  obtain ⟨hch, hf, hpn⟩ := Channel.refusal_eq_none_iff.mp hfr
  obtain ⟨hkp, hr, hrl⟩ := joinChannel_keeps id c call
  rw [hch, hf] at hrl
  refine ⟨⟨fun hn => ⟨?_, hkp.trans hpn⟩, fun _ => hkp.trans hpn⟩, ?_⟩
  · exact hrl.resolve_left (by simp [hn])
  · rw [hkp, hr]
    exact htr.removals

theorem Channel.Tracked.removeChannel (htr : c.Tracked) (status : Status)
    (removeJoinBlock : Written) : (c.removeChannel id status removeJoinBlock).1.Tracked := by
  obtain ⟨hrl, hr⟩ := htr
  unfold Channel.removeChannel
  split_ifs with hpend hchain hfol
  · exact ⟨hrl, hr⟩
  · have hrl := hrl.1 hchain
    simpa [Channel.tracked_iff, Channel.OneRole, hrl] using hr
  · have hrl := hrl.2 hfol
    cases removeJoinBlock <;>
      simpa [Channel.removeJoinBlock, Channel.tracked_iff, Channel.OneRole, *] using hr
  · exact ⟨hrl, hr⟩

theorem Channel.Tracked.ledgerRemoved (htr : c.Tracked) (r : Except String Unit) :
    (c.ledgerRemoved r).Tracked := by
  obtain ⟨hrl, hr⟩ := htr
  rcases hr with hid | ⟨hn, hpn⟩
  · simp only [Channel.ledgerRemoved, hid.1]
    exact ⟨hrl, .inl hid⟩
  · obtain ⟨hch, hf⟩ := hrl.not_present hpn
    cases r <;>
      simp [Channel.ledgerRemoved, hn, Channel.tracked_iff, Channel.OneRole, hch, hf]

theorem reached_tracked {f : GoString → Found} (hrc : Reached f chs)
    (id : GoString) : (chs id).Tracked := by
  induction hrc generalizing id with
  | started =>
    cases hg : f id <;>
      simp [Found.channel, Channel.tracked_iff, Channel.OneRole, hg]
  | @next chs _ changed ev _ participates step ih =>
    cases ev with
    | joinChannel call =>
      have hin : ∀ other, (chs.init call other).Tracked := by
        intro other
        obtain ⟨_, hin⟩ := init_apply chs call other
        rw [hin]
        exact ⟨(ih other).oneRole, (ih other).removals⟩
      simp only [Channels.step, Channels.join] at step
      split_ifs at step with hfree <;> cases step
      · have hr : (chs.init call changed).refusal = none := by
          obtain ⟨_, hin⟩ := init_apply chs call changed
          rw [hin]
          exact Option.isNone_iff_eq_none.mp hfree
        exact update_all hin ((hin changed).joinChannel hr) id
      · exact ih id
    | removeChannel status removeJoinBlock =>
      cases step
      exact update_all ih ((ih changed).removeChannel status removeJoinBlock) id
    | ledgerRemoved r =>
      cases step
      exact update_all ih ((ih changed).ledgerRemoved r) id
    | switchFollowerToChain | switchChainToFollower => cases participates

theorem join_genesis_iff (hfr : (chs id).refusal = none) {ledgerMade isMember : Bool} {height : ℕ} :
    (∃ c, chs.join id (genesisJoin id ledgerMade isMember height) = some (c, .ok ())) ↔
      (chs id).joinBlock = false := by
  obtain ⟨_, hin⟩ := init_apply chs (genesisJoin id ledgerMade isMember height) id
  rw [Channels.join, if_pos (by simp [hfr]), hin]
  cases hb : (chs id).joinBlock <;> cases isMember <;> cases height <;>
    simp [Channel.joinChannel, genesisJoin, Channel.save, hb, Answer.deferred,
      Channel.joinSaved, Channel.createAsMember, Channel.createFollower, Channel.removeJoinBlock,
      withMessage, Except.mapError, bind, Except.bind, pure, Except.pure]

/-- A channel with no ledger removal running can be removed or joined exactly when its last
removal has not failed and no join block is left of a failed join. -/
theorem recoverable_iff {found : GoString → Found} (hreached : Reached found channels)
    (hidle : (channels id).removals = 0) :
    channels.Recoverable id ↔ (channels id).pendingRemoval ≠ some .failed ∧
      ((channels id).joinBlock = true →
        (channels id).chain = true ∨ (channels id).follower = true) := by
  obtain ⟨hrl, hrem⟩ := reached_tracked hreached id
  obtain ⟨-, hpn⟩ := hrem.resolve_right (by simp [hidle])
  rcases hpn with hno | hfailed
  · by_cases hch : (channels id).chain = true
    · refine iff_of_true (.inl fun status => ?_) ⟨by simp [hno], fun _ => .inl hch⟩
      simp [Channel.removeChannel, hno, hch]
    by_cases hfol : (channels id).follower = true
    · refine iff_of_true (.inl fun status => ?_) ⟨by simp [hno], fun _ => .inr hfol⟩
      simp [Channel.removeChannel, hno, hch, hfol, Channel.removeJoinBlock]
    have hfr : (channels id).refusal = none :=
      Channel.refusal_eq_none_iff.mpr ⟨by simpa using hch, by simpa using hfol, hno⟩
    have : Nonempty Status := ⟨.active⟩
    simp [Channels.Recoverable, Channel.removeChannel, hno, hch, hfol, join_genesis_iff hfr]
  · obtain ⟨hch, hfol⟩ := hrl.not_present (by simp [hfailed])
    refine iff_of_false ?_ (by simp [hfailed])
    rintro (hrmv | hjoined)
    · simpa [Channel.removeChannel, hfailed, hch, hfol] using hrmv .active
    · simpa [Channels.join, Channel.refusal, hfailed] using hjoined true true 0

theorem recoverable_after_removal : ∃ channels, Reached (fun _ => .member) channels ∧
    (channels (ascii "c")).chain = false ∧ channels.Recoverable (ascii "c") := by
  have hreached : Reached (fun _ => .member) _ := .next (ascii "c") (.ledgerRemoved (.ok ()))
    (.next (ascii "c") (.removeChannel .active .ok) .started trivial rfl) trivial rfl
  exact ⟨_, hreached, rfl, (recoverable_iff hreached rfl).mpr ⟨nofun, nofun⟩⟩

theorem failed_removal_stuck : ∃ channels, Reached (fun _ => .member) channels ∧
    (channels (ascii "c")).removals = 0 ∧ ¬ channels.Recoverable (ascii "c") := by
  refine ⟨_, .next (ascii "c") (.ledgerRemoved (.error "permission denied"))
    (.next (ascii "c") (.removeChannel .active .ok) .started trivial rfl) trivial rfl, rfl, ?_⟩
  rintro (hrmv | hjnd)
  · cases hrmv .active
  · obtain ⟨_, hjnd⟩ := hjnd true true 0
    cases hjnd

end FabricSequencer.Registrar
