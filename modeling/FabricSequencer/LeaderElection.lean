import FabricSequencer.GoTypes
import Mathlib.Data.List.Infix

/-!
# The callback of the leader election

`run` makes a peer the leader without the lock; `handleMessage` and `Yield` end its leadership
with the lock.  Each of them first stores the flag and then calls the callback.
-/

namespace FabricSequencer.Election

open List

inductive Run where
  | checkLeader
  | checkYield
  | sleep
  | recheckLeader
  | recheckYield
  | checkProposals
  | storeIsLeader
  | callback
  | storeLeaderExists
  | checkStopYielding
  | stopYielding
  | checkIsLeader
  | lead
  | follow
  deriving DecidableEq

/-- The next step of the `stopBeingLeader` that has the lock, for `Yield` or for a declaration. -/
inductive Stopping where
  | none
  | storeIsLeader (yielding : Bool)
  | callback (yielding : Bool)
  | clearLeaderExists
  deriving DecidableEq

structure Control where
  isLeader : Bool := false
  leaderExists : Bool := false
  yield : Bool := false
  run : Run := .checkLeader
  stopping : Stopping := .none

structure State extends Control where
  proposals : List GoString := []
  /-- the arguments of the callback, the last one first -/
  calls : List Bool := []

inductive Event where
  | run
  | proposal (sender : GoString)
  | declaration (sender : GoString)
  | yield
  | stopBeingLeader
  | yieldTimer

variable (c : Control)

/-- A step of `run`, where `better` says that a peer with a smaller id has proposed itself. -/
def Control.runStep (better : Bool) : Control :=
  match c.run with
  | .checkLeader => { c with run := if c.leaderExists then .checkStopYielding else .checkYield }
  | .checkYield => { c with run := if c.yield then .checkStopYielding else .sleep }
  -- `waitForInterrupt` ends with the lock, here and for a leader
  | .sleep => if c.stopping = .none then { c with run := .recheckLeader } else c
  | .recheckLeader => { c with run := if c.leaderExists then .checkStopYielding else .recheckYield }
  | .recheckYield => { c with run := if c.yield then .checkStopYielding else .checkProposals }
  | .checkProposals => { c with run := if better then .checkStopYielding else .storeIsLeader }
  | .storeIsLeader => { c with isLeader := true, run := .callback }
  | .callback => { c with run := .storeLeaderExists }
  | .storeLeaderExists => { c with leaderExists := true, run := .checkStopYielding }
  | .checkStopYielding =>
    { c with run := if c.leaderExists ∧ c.yield then .stopYielding else .checkIsLeader }
  | .stopYielding =>
    if c.stopping = .none then { c with yield := false, run := .checkIsLeader } else c
  | .checkIsLeader => { c with run := if c.isLeader then .lead else .follow }
  | .lead => if c.stopping = .none then { c with run := .checkLeader } else c
  | .follow => { c with leaderExists := false, run := .checkLeader }

def Control.stopStep : Control :=
  match c.stopping with
  | .none => c
  | .storeIsLeader yielding => { c with isLeader := false, stopping := .callback yielding }
  | .callback yielding => { c with stopping := if yielding then .clearLeaderExists else .none }
  | .clearLeaderExists => { c with leaderExists := false, stopping := .none }

def Control.declaration (smaller : Bool) : Control :=
  if c.stopping = .none then
    { c with leaderExists := true
             stopping := if smaller ∧ c.isLeader then .storeIsLeader false else .none }
  else c

def Control.yieldCall : Control :=
  if c.stopping = .none ∧ c.isLeader ∧ ¬ c.yield then
    { c with yield := true, stopping := .storeIsLeader true }
  else c

def Stopping.due : Stopping → Bool
  | .callback _ => true
  | _ => false

def Control.runCall : Option Bool := if c.run = .callback then some true else none

def Control.stopCall : Option Bool := if c.stopping.due then some false else none

variable (id : GoString)

/-- A message and a call of `Yield` wait for the lock. -/
def State.step (s : State) : Event → State
  | .run =>
    { toControl := s.runStep (s.proposals.any (· < id))
      proposals := if s.run = .follow then [] else s.proposals
      calls := s.runCall.toList ++ s.calls }
  | .proposal sender =>
    if s.stopping = .none then { s with proposals := sender :: s.proposals } else s
  | .declaration sender => { s with toControl := s.declaration (sender < id) }
  | .yield => { s with toControl := s.yieldCall }
  | .stopBeingLeader =>
    { s with toControl := s.stopStep, calls := s.stopCall.toList ++ s.calls }
  | .yieldTimer => { s with yield := false }

def run (events : List Event) : State := events.foldl (State.step id) {}

def Alternates : List Bool → Prop
  | [] => True
  | call :: earlier => call = !earlier.headD false ∧ Alternates earlier

/-- The callback agrees with the flag while no call of it is due. -/
def State.Agrees (s : State) : Prop :=
  Alternates s.calls ∧
    (s.run ≠ .callback → s.stopping.due = false → s.calls.headD false = s.isLeader)

/-- The callback is about to hear of the end of a leadership before its beginning. -/
abbrev Control.Overtakes : Prop := c.run = .callback ∧ c.stopping.due = true

/-- What the callback has heard last, as long as nothing has overtaken. -/
def Control.told : Bool := c.run ≠ .callback && (c.isLeader || c.stopping.due)

/-- A peer that may become the leader is not yet one, and no `stopBeingLeader` has the lock. -/
def Control.Sound : Prop :=
  (c.run = .callback → c.isLeader || c.stopping.due) ∧
    (c.run ∈ [.recheckLeader, .recheckYield, .checkProposals, .storeIsLeader] →
      c.stopping = .none ∧ c.isLeader = false) ∧
    (c.run ∈ [.checkYield, .sleep, .follow] → c.isLeader = false) ∧
    (c.isLeader = true → c.leaderExists ∨ c.run = .callback ∨ c.run = .storeLeaderExists) ∧
    ∀ yielding, (c.stopping = .storeIsLeader yielding → c.isLeader = true) ∧
      (c.stopping = .callback yielding ∨ c.stopping = .clearLeaderExists → c.isLeader = false)

instance : DecidablePred Control.Sound := fun _ => inferInstanceAs (Decidable (_ ∧ _))

/-- The callback hears nothing, or the opposite of what it has heard last. -/
abbrev Control.Follows (call : Option Bool) (next : Control) : Prop :=
  next.Sound ∧ next.told = call.getD c.told ∧ (call = none ∨ call = some !c.told)

variable {c}

-- a control is a finite thing: `run` and the lock are split, the flags are tried
theorem follows_runStep (better : Bool) : c.Sound → c.Follows c.runCall (c.runStep better) := by
  obtain ⟨_, _, _, run, stopping⟩ := c
  cases run <;> cases stopping <;> decide +revert +kernel

theorem follows_stopStep : c.Sound → ¬ c.Overtakes → c.Follows c.stopCall c.stopStep := by
  obtain ⟨_, _, _, run, stopping⟩ := c
  cases run <;> cases stopping <;> decide +revert +kernel

theorem follows_declaration (smaller : Bool) : c.Sound →
    c.Follows none (c.declaration smaller) := by
  obtain ⟨_, _, _, run, stopping⟩ := c
  cases run <;> cases stopping <;> decide +revert +kernel

theorem follows_yieldCall : c.Sound → c.Follows none c.yieldCall := by
  obtain ⟨_, _, _, run, stopping⟩ := c
  cases run <;> cases stopping <;> decide +revert +kernel

structure State.Sound (s : State) : Prop where
  control : s.toControl.Sound
  alternates : Alternates s.calls
  last : s.calls.headD false = s.told

variable {id} {s : State}

theorem State.Sound.follow (hsn : s.Sound) {call : Option Bool} {next : State}
    (hf : s.Follows call next.toControl) (hcl : next.calls = call.toList ++ s.calls) :
    next.Sound := by
  obtain ⟨hnx, htl, rfl | rfl⟩ := hf
  · exact ⟨hnx, hcl ▸ hsn.alternates, hcl ▸ hsn.last.trans htl.symm⟩
  refine ⟨hnx, ?_, ?_⟩
  · rw [hcl, ← hsn.last]
    exact ⟨rfl, hsn.alternates⟩
  · rw [hcl, htl]
    rfl

theorem State.Sound.step (hsn : s.Sound) (ev : Event)
    (hev : ev = .stopBeingLeader → ¬ s.Overtakes) : (s.step id ev).Sound := by
  cases ev with
  | run => exact hsn.follow (follows_runStep _ hsn.control) rfl
  | proposal =>
    rw [State.step]
    split_ifs
    · exact { hsn with }
    · exact hsn
  | declaration => exact hsn.follow (follows_declaration _ hsn.control) rfl
  | yield => exact hsn.follow (follows_yieldCall hsn.control) rfl
  | stopBeingLeader => exact hsn.follow (follows_stopStep hsn.control (hev rfl)) rfl
  | yieldTimer => exact { hsn with }

theorem run_concat (evs : List Event) (ev : Event) :
    run id (evs ++ [ev]) = (run id evs).step id ev := by
  simp [run]

theorem sound_run {evs : List Event}
    (hn : ∀ pre, pre ++ [.stopBeingLeader] <+: evs → ¬ (run id pre).Overtakes) :
    (run id evs).Sound := by
  induction evs using reverseRecOn with
  | nil => exact ⟨(by decide : Control.Sound {}), trivial, rfl⟩
  | append_singleton evs ev ih =>
    rw [run_concat]
    refine (ih fun pre hp => hn pre (hp.trans (prefix_append _ _))).step ev ?_
    rintro rfl
    exact hn evs (prefix_refl _)

theorem State.Sound.agrees (hsn : s.Sound) : s.Agrees := by
  refine ⟨hsn.alternates, ?_⟩
  intro hr hd
  rw [hsn.last]
  simp [Control.told, hr, hd]

/-- At the end of a leadership of which the callback has not heard, it hears `false` twice. -/
theorem State.Sound.not_agrees (hsn : s.Sound) (hov : s.Overtakes) :
    ¬ (s.step id .stopBeingLeader).Agrees := by
  intro hg
  have hla := hsn.last
  have hcl := hg.1
  simp only [State.step, Control.stopCall, hov.2, if_true, Option.toList_some,
    singleton_append, Alternates, hla, Control.told, hov.1] at hcl
  cases hcl.1

/-- The callback goes wrong exactly if it hears of the end of a leadership before its beginning. -/
theorem callback_agrees_iff (events : List Event) :
    (∀ before, before <+: events → (run id before).Agrees) ↔
      ∀ before, before ++ [.stopBeingLeader] <+: events → ¬ (run id before).Overtakes := by
  constructor
  · intro hagr
    induction events using reverseRecOn with
    | nil => simp
    | append_singleton _ _ ih =>
      have hea := ih fun before hpre =>
        hagr before (hpre.trans (prefix_append _ _))
      intro before hpre hov
      rcases prefix_concat_iff.mp hpre with hlast | hpre
      · obtain ⟨rfl, hev⟩ := append_inj' hlast rfl
        cases hev
        apply (sound_run hea).not_agrees hov
        rw [← run_concat]
        exact hagr _ (prefix_refl _)
      · exact hea before hpre hov
  · intro hnot _ hpre
    exact (sound_run fun earlier hea => hnot earlier (hea.trans hpre)).agrees

/-- A smaller peer declares itself the leader when the flag is set and the callback is due. -/
def overtakenEvents : List Event :=
  List.replicate 7 .run ++ [.declaration [0], .stopBeingLeader, .stopBeingLeader, .run]

theorem overtaken_not_agrees :
    (run [1] overtakenEvents).calls = [true, false] ∧
      (run [1] overtakenEvents).isLeader = false ∧ ¬ (run [1] overtakenEvents).Agrees := by
  refine ⟨by decide, by decide, ?_⟩
  rintro ⟨⟨-, hfst, -⟩, -⟩
  cases hfst

end FabricSequencer.Election
