import Mathlib.Tactic

/-!
# Calls on a mutable object

A method that changes its object and may fail is an `EStateM` computation: the
changes made before the failure stay.  `after` is the object after the call,
whether or not it failed, and `Keeps` says that every call relates the object
before to the object after.
-/

namespace StateCall

variable {ε σ α β : Type}

def after (call : EStateM ε σ α) (s : σ) : σ :=
  match call s with
  | .ok _ s' => s'
  | .error _ s' => s'

theorem get_eq (s : σ) : (get : EStateM ε σ σ) s = .ok s s := rfl

theorem bind_eq (call : EStateM ε σ α) (next : α → EStateM ε σ β) (s : σ) :
    (call >>= next) s =
      match call s with
      | .ok r s' => next r s'
      | .error failure s' => .error failure s' :=
  rfl

variable {call : EStateM ε σ α} {s s' : σ}

theorem after_eq_of_ok {r : α} (hca : call s = .ok r s') : after call s = s' := by
  rw [after, hca]

theorem after_eq_of_error {failure : ε} (hca : call s = .error failure s') : after call s = s' := by
  rw [after, hca]

variable {next : α → EStateM ε σ β}

theorem after_bind_ok {r : α} (hca : call s = .ok r s') :
    after (call >>= next) s = after (next r) s' := by
  simp [after, bind_eq, hca]

theorem after_bind_error {failure : ε} (hca : call s = .error failure s') :
    after (call >>= next) s = s' := by
  simp [after, bind_eq, hca]

theorem after_bind_unchanged (hnx : ∀ r s, after (next r) s = s)
    (s : σ) : after (call >>= next) s = after call s := by
  cases hca : call s with
  | ok => rw [after_bind_ok hca, hnx, after_eq_of_ok hca]
  | error => rw [after_bind_error hca, after_eq_of_error hca]

@[simp] theorem after_discard (call : EStateM ε σ α) (s : σ) :
    after (discard call) s = after call s := by
  have hd : (discard call : EStateM ε σ PUnit) s =
      match call s with
      | .ok _ s' => .ok PUnit.unit s'
      | .error failure s' => .error failure s' := rfl
  unfold after
  rw [hd]
  cases call s <;> rfl

def Keeps (related : σ → σ → Prop) (call : EStateM ε σ α) : Prop := ∀ s, related s (after call s)

section

variable {related : σ → σ → Prop} [IsPreorder σ related]

theorem keeps_pure (r : α) : Keeps related (pure r : EStateM ε σ α) :=
  fun s => refl_of related s

theorem keeps_throw (failure : ε) : Keeps related (throw failure : EStateM ε σ α) :=
  fun s => refl_of related s

theorem keeps_get : Keeps related (get : EStateM ε σ σ) :=
  fun s => refl_of related s

theorem Keeps.bind {call : EStateM ε σ α} {next : α → EStateM ε σ β} (hca : Keeps related call)
    (hnx : ∀ r, Keeps related (next r)) : Keeps related (call >>= next) := by
  intro s
  have hf := hca s
  cases hr : call s with
  | ok r s' =>
    rw [after_bind_ok hr]
    rw [after, hr] at hf
    exact trans_of related hf (hnx r s')
  | error =>
    rw [after_bind_error hr]
    rw [after, hr] at hf
    exact hf

theorem keeps_forM {call : α → EStateM ε σ PUnit}
    (its : List α) (hca : ∀ it ∈ its, Keeps related (call it)) : Keeps related (forM its call) := by
  induction its with
  | nil => exact keeps_pure PUnit.unit
  | cons _ _ ih =>
    rw [List.forM_cons]
    rw [List.forall_mem_cons] at hca
    exact hca.1.bind fun _ => ih hca.2

theorem keeps_mapM {call : α → EStateM ε σ β}
    (its : List α) (hca : ∀ it ∈ its, Keeps related (call it)) : Keeps related (its.mapM call) := by
  induction its with
  | nil => exact keeps_pure []
  | cons _ _ ih =>
    rw [List.mapM_cons]
    rw [List.forall_mem_cons] at hca
    exact hca.1.bind fun _ => (ih hca.2).bind fun _ => keeps_pure _

end

end StateCall
