import Mathlib.Data.List.Basic
import Mathlib.Tactic

/-!
# Machines that consume events and emit effects

A machine is a partial step function.  A step may be impossible, either
because the event cannot occur in the present state or because the program
stops there.  The run over a list of events collects the emitted effects in
order.
-/

namespace EffectMachine

variable {State Event Effect : Type}

/-- The run of a step function over a finite sequence of events. -/
def run (step : State → Event → Option (State × List Effect)) :
    State → List Event → Option (State × List Effect)
  | state, [] => some (state, [])
  | state, event :: events =>
    match step state event with
    | none => none
    | some (next, emitted) =>
      match run step next events with
      | none => none
      | some (final, later) => some (final, emitted ++ later)

@[simp] theorem run_nil (step : State → Event → Option (State × List Effect)) (s : State) :
    run step s [] = some (s, []) := rfl

variable {step : State → Event → Option (State × List Effect)}
  {s final : State} {events : List Event} {effects : List Effect}

theorem run_cons_eq_some_iff {ev : Event} :
    run step s (ev :: events) = some (final, effects) ↔
      ∃ next em later, step s ev = some (next, em) ∧ run step next events = some (final, later) ∧
        effects = em ++ later := by
  constructor
  · intro hr
    simp only [run] at hr
    cases hstep : step s ev with
    | none => simp [hstep] at hr
    | some r =>
      rcases r with ⟨next, em⟩
      rw [hstep] at hr
      simp only at hr
      cases hrs : run step next events with
      | none => simp [hrs] at hr
      | some r =>
        rcases r with ⟨_, later⟩
        rw [hrs] at hr
        simp only [Option.some.injEq, Prod.mk.injEq] at hr
        rcases hr with ⟨rfl, rfl⟩
        exact ⟨next, em, later, rfl, hrs, rfl⟩
  · rintro ⟨_, _, _, hstep, hrs, rfl⟩
    simp [run, hstep, hrs]

variable {Invariant : State → Prop}

theorem run_invariant
    (hstep : ∀ s ev next em, Invariant s → step s ev = some (next, em) → Invariant next)
    (hsr : Invariant s) (hr : run step s events = some (final, effects)) :
    Invariant final := by
  induction events generalizing s effects with
  | nil =>
    simp only [run_nil, Option.some.injEq, Prod.mk.injEq] at hr
    exact hr.1 ▸ hsr
  | cons ev _ ih =>
    obtain ⟨next, em, _, hnx, hrs, -⟩ := run_cons_eq_some_iff.mp hr
    exact ih (hstep s ev next em hsr hnx) hrs

/-- A property of effects that holds of whatever a step emits from a state
satisfying the invariant holds of every effect of a run. -/
theorem run_effects (Good : Effect → Prop)
    (hstep : ∀ s ev next em,
      Invariant s → step s ev = some (next, em) → Invariant next ∧ ∀ effect ∈ em, Good effect)
    (hsr : Invariant s) (hr : run step s events = some (final, effects)) :
    ∀ effect ∈ effects, Good effect := by
  induction events generalizing s effects with
  | nil =>
    simp only [run_nil, Option.some.injEq, Prod.mk.injEq] at hr
    rw [← hr.2]
    intro _ hm
    cases hm
  | cons ev _ ih =>
    obtain ⟨next, em, _, hnx, hrs, hf⟩ := run_cons_eq_some_iff.mp hr
    obtain ⟨hin, hgd⟩ := hstep s ev next em hsr hnx
    intro effect hm
    rw [hf, List.mem_append] at hm
    rcases hm with hhead | htail
    · exact hgd effect hhead
    · exact ih hin hrs effect htail

def observed {Note : Type} (step : State → Event → Option (State × List Effect))
    (note : State → Event → List Note) : State → List Event → List Note
  | _, [] => []
  | state, event :: events =>
    match step state event with
    | none => []
    | some (next, _) => note state event ++ observed step note next events

/-- Conservation along a run.  If every step turns what is stored before it
plus what is noted at it into what it emits plus what is stored after it, the
whole run does. -/
theorem run_conservation {Note : Type}
    {note : State → Event → List Note} {sd : State → List Note} {released : Effect → List Note}
    (hstep : ∀ s ev next em,
      Invariant s → step s ev = some (next, em) →
        Invariant next ∧ em.flatMap released ++ sd next = sd s ++ note s ev)
    (hsr : Invariant s) (hr : run step s events = some (final, effects)) :
    effects.flatMap released ++ sd final = sd s ++ observed step note s events := by
  induction events generalizing s effects with
  | nil =>
    simp only [run_nil, Option.some.injEq, Prod.mk.injEq] at hr
    rcases hr with ⟨rfl, rfl⟩
    simp [observed]
  | cons ev events ih =>
    obtain ⟨next, em, lt, hnx, hrs, rfl⟩ := run_cons_eq_some_iff.mp hr
    obtain ⟨hin, hb⟩ := hstep s ev next em hsr hnx
    have htl := ih hin hrs
    calc
      (em ++ lt).flatMap released ++ sd final =
          em.flatMap released ++ (lt.flatMap released ++ sd final) := by
          simp [List.flatMap_append]
      _ = (em.flatMap released ++ sd next) ++ observed step note next events := by
          rw [htl, List.append_assoc]
      _ = sd s ++ observed step note s (ev :: events) := by
          rw [hb, List.append_assoc]
          simp [observed, hnx]

/-- Every event of the sequence is allowed in the state it meets. -/
def Fed (step : State → Event → Option (State × List Effect))
    (allowed : State → Event → Prop) : State → List Event → Prop
  | _, [] => True
  | state, event :: events =>
    allowed state event ∧
      ∀ next emitted, step state event = some (next, emitted) → Fed step allowed next events

variable {allowed : State → Event → Prop}

theorem Fed.cons {s next : State} {ev : Event} {em : List Effect}
    (hstep : step s ev = some (next, em)) (hl : allowed s ev) (hrs : Fed step allowed next events) :
    Fed step allowed s (ev :: events) := by
  refine ⟨hl, ?_⟩
  intro _ _ ho
  rw [hstep] at ho
  simp only [Option.some.injEq, Prod.mk.injEq] at ho
  rcases ho with ⟨rfl, rfl⟩
  exact hrs

/-- If allowed events never stop the machine, keep the invariant and emit
good effects, a run over allowed events reaches its end. -/
theorem run_progress (Invariant : State → Prop) (Good : Effect → Prop)
    (hstep : ∀ s ev, Invariant s → allowed s ev →
      ∃ next em, step s ev = some (next, em) ∧ Invariant next ∧ ∀ effect ∈ em, Good effect)
    {s : State} (hsr : Invariant s) (hf : Fed step allowed s events) :
    ∃ final effects, run step s events = some (final, effects) ∧
      ∀ effect ∈ effects, Good effect := by
  induction events generalizing s with
  | nil => exact ⟨s, [], rfl, by simp⟩
  | cons ev _ ih =>
    obtain ⟨hw, hrs⟩ := hf
    obtain ⟨next, em, hnx, hin, hgd⟩ := hstep s ev hsr hw
    obtain ⟨final, lt, hr, hl⟩ := ih hin (hrs next em hnx)
    refine ⟨final, em ++ lt, ?_, ?_⟩
    · exact run_cons_eq_some_iff.mpr ⟨next, em, lt, hnx, hr, rfl⟩
    · intro effect hm
      rcases List.mem_append.mp hm with hhead | htail
      · exact hgd effect hhead
      · exact hl effect htail

end EffectMachine
