import FabricSequencer.BlockSignature

/-!
# Evaluation of a signature policy

The evaluator that `compile` builds goes through the rules from left to right and marks the
identities it has used.  A rule that fails leaves no mark.  It marks positions: that no identity
counts twice rests on the caller, who has to remove repeated identities before.
-/

namespace FabricSequencer.Cauthdsl

open Protoutil (SignaturePolicy int32)

variable {Identity : Type} (satisfies : Identity → Bytes → Bool) (principals : List Bytes)
  (signedData : List Identity)

mutual

/-- The verdict and the positions of the identities that are used by then.  An index without a
principal does not compile. -/
def evaluate : SignaturePolicy → Finset ℕ → Bool × Finset ℕ
  | .signedBy index, used =>
    match (List.range signedData.length).find? fun i => i ∉ used ∧
        (principals[index.toNat]?).any fun principal => (signedData[i]?).any (satisfies · principal)
      with
    | some i => (true, insert i used)
    | none => (false, used)
  | .nOutOf n rules, used =>
    let (verified, after) := evaluateAll rules used
    (decide (int32 verified ≥ n), after)

def evaluateAll : List SignaturePolicy → Finset ℕ → ℕ × Finset ℕ
  | [], used => (0, used)
  | rule :: rules, used =>
    let (satisfied, tried) := evaluate rule used
    let (verified, after) := evaluateAll rules (if satisfied then tried else used)
    (if satisfied then verified + 1 else verified, after)

end

mutual

/-- A choice of satisfied sub-policies, at least `n` at an `nOutOf`, with an identity for each leaf
below them. -/
inductive Chosen : SignaturePolicy → List ℕ → Prop where
  | signedBy {index : ℤ} {i : ℕ} {principal : Bytes} {identity : Identity}
      (hprincipal : principals[index.toNat]? = some principal)
      (hidentity : signedData[i]? = some identity) (hsatisfies : satisfies identity principal) :
      Chosen (.signedBy index) [i]
  | nOutOf {n : ℤ} {rules : List SignaturePolicy} {count : ℕ} {chosen : List ℕ}
      (hrules : ChosenAll rules count chosen) (hcount : n ≤ count) : Chosen (.nOutOf n rules) chosen

inductive ChosenAll : List SignaturePolicy → ℕ → List ℕ → Prop where
  | nil : ChosenAll [] 0 []
  | skip {rule : SignaturePolicy} {rules : List SignaturePolicy} {count : ℕ} {chosen : List ℕ}
      (hrules : ChosenAll rules count chosen) : ChosenAll (rule :: rules) count chosen
  | take {rule : SignaturePolicy} {rules : List SignaturePolicy} {count : ℕ} {first rest : List ℕ}
      (hrule : Chosen rule first) (hrules : ChosenAll rules count rest) :
      ChosenAll (rule :: rules) (count + 1) (first ++ rest)

end

/-- The positions of a choice are new, distinct and among the first `size`. -/
structure Uses (size : ℕ) (used : Finset ℕ) (chosen : List ℕ) (after : Finset ℕ) : Prop where
  nodup : chosen.Nodup
  lt : ∀ i ∈ chosen, i < size
  fresh : ∀ i ∈ chosen, i ∉ used
  after_iff : ∀ i, i ∈ after ↔ i ∈ used ∨ i ∈ chosen

theorem Uses.append {size : ℕ} {used md post : Finset ℕ} {first tl : List ℕ}
    (hfirst : Uses size used first md) (hrest : Uses size md tl post) :
    Uses size used (first ++ tl) post where
  nodup := by
    rw [List.nodup_append]
    refine ⟨hfirst.nodup, hrest.nodup, ?_⟩
    rintro i hi j hj rfl
    exact hrest.fresh i hj ((hfirst.after_iff i).mpr (.inr hi))
  lt := List.forall_mem_append.mpr ⟨hfirst.lt, hrest.lt⟩
  fresh i hi := by
    rcases List.mem_append.mp hi with hi | hi
    · exact hfirst.fresh i hi
    · exact fun hused => hrest.fresh i hi ((hfirst.after_iff i).mpr (.inl hused))
  after_iff i := by
    rw [hrest.after_iff, hfirst.after_iff, List.mem_append, or_assoc]

variable {satisfies principals signedData}

theorem int32_le (n : ℕ) : int32 n ≤ n := by
  unfold int32
  split_ifs <;> omega

theorem evaluate_signedBy {ix : ℤ} {used post : Finset ℕ}
    (ha : evaluate satisfies principals signedData (.signedBy ix) used = (true, post)) :
    ∃ i, Chosen satisfies principals signedData (.signedBy ix) [i] ∧ i < signedData.length ∧
      i ∉ used ∧ post = insert i used := by
  rw [evaluate] at ha
  split at ha
  next i hfn =>
    cases ha
    have hfound := List.find?_some hfn
    rw [decide_eq_true_eq] at hfound
    have hlt := List.mem_range.mp (List.mem_of_find?_eq_some hfn)
    obtain ⟨_, hprincipal, hany⟩ := (Option.any_eq_true _ _).mp hfound.2
    obtain ⟨_, hidentity, hsatisfies⟩ := (Option.any_eq_true _ _).mp hany
    exact ⟨i, .signedBy hprincipal hidentity hsatisfies, hlt, hfound.1, rfl⟩
  · cases ha

mutual

theorem evaluate_chosen (policy : SignaturePolicy) {used after : Finset ℕ}
    (ha : evaluate satisfies principals signedData policy used = (true, after)) :
    ∃ cn, Chosen satisfies principals signedData policy cn ∧
      Uses signedData.length used cn after := by
  cases policy with
  | signedBy =>
    obtain ⟨i, hchosen, hlt, hfresh, rfl⟩ := evaluate_signedBy ha
    exact ⟨[i], hchosen, List.nodup_singleton i, by simpa using hlt, by simpa using hfresh,
      by simp [or_comm]⟩
  | nOutOf _ rules =>
    obtain ⟨cn, hrl, hus⟩ := evaluateAll_chosen rules used
    rw [evaluate] at ha
    obtain ⟨hvr, haf⟩ := Prod.mk.inj ha
    have hc := of_decide_eq_true hvr
    exact ⟨cn, .nOutOf hrl (hc.trans (int32_le _)), haf ▸ hus⟩

theorem evaluateAll_chosen (rules : List SignaturePolicy) (used : Finset ℕ) :
    ∃ cn, ChosenAll satisfies principals signedData rules
        (evaluateAll satisfies principals signedData rules used).1 cn ∧
      Uses signedData.length used cn (evaluateAll satisfies principals signedData rules used).2 := by
  cases rules with
  | nil => exact ⟨[], .nil, List.nodup_nil, by simp, by simp, by simp [evaluateAll]⟩
  | cons rule rules =>
    cases hru : evaluate satisfies principals signedData rule used with
    | mk satisfied tried =>
      cases satisfied with
      | false =>
        obtain ⟨cn, hrl, hus⟩ := evaluateAll_chosen rules used
        rw [evaluateAll, hru]
        exact ⟨cn, .skip hrl, hus⟩
      | true =>
        obtain ⟨first, hf, hud⟩ := evaluate_chosen rule hru
        obtain ⟨tl, hrl, hus⟩ := evaluateAll_chosen rules tried
        rw [evaluateAll, hru]
        exact ⟨first ++ tl, .take hf hrl, hud.append hus⟩

end

/-- No identity counts twice, if the list has none twice. -/
theorem evaluate_distinct {policy : SignaturePolicy} (hdistinct : signedData.Nodup)
    (haccept : (evaluate satisfies principals signedData policy ∅).1 = true) :
    ∃ chosen, Chosen satisfies principals signedData policy chosen ∧
      (chosen.map fun i => signedData[i]?).Nodup := by
  obtain ⟨chosen, hchosen, huses⟩ := evaluate_chosen policy (Prod.ext haccept rfl)
  refine ⟨chosen, hchosen, huses.nodup.map_on ?_⟩
  intro i hi j _ hsame
  exact (List.getElem?_inj (huses.lt i hi) hdistinct).mp hsame

/-- Two identities for two leaves of one principal. -/
theorem evaluate_distinct_two :
    ∃ chosen, Chosen (fun identity _ => identity < 3) [[1]] [1, 2]
      (.nOutOf 2 [.signedBy 0, .signedBy 0]) chosen ∧ (chosen.map fun i => [1, 2][i]?).Nodup :=
  evaluate_distinct (by decide) (by decide)

/-- An identity that is listed twice satisfies both leaves. -/
theorem evaluate_repeated_identity :
    (evaluate (fun identity _ => identity < 3) [[1]] [1, 1]
        (.nOutOf 2 [.signedBy 0, .signedBy 0]) ∅).1 = true ∧
      ¬ ∃ chosen, Chosen (fun identity _ => identity < 3) [[1]] [1, 1]
        (.nOutOf 2 [.signedBy 0, .signedBy 0]) chosen ∧ (chosen.map fun i => [1, 1][i]?).Nodup := by
  refine ⟨by decide, ?_⟩
  rintro ⟨_, hchosen, hnodup⟩
  have hsame : ∀ {i identity : ℕ}, [1, 1][i]? = some identity → [1, 1][i]? = some 1 := by
    intro _ _ hidentity
    have hmem := List.mem_of_getElem? hidentity
    simp_all
  -- of two leaves both are taken, and each by the only identity
  cases hchosen with
  | nOutOf hrules hcount =>
    cases hrules with
    | skip hrest =>
      cases hrest with
      | skip hnil | take _ hnil =>
        cases hnil
        simp at hcount
    | take hfirst hrest =>
      cases hrest with
      | skip hnil =>
        cases hnil
        simp at hcount
      | take hsecond hnil =>
        cases hnil
        cases hfirst with
        | signedBy _ hone _ =>
          cases hsecond with
          | signedBy _ htwo _ => simp [hsame hone, hsame htwo] at hnodup

end FabricSequencer.Cauthdsl
