import FabricSequencer.GoTypes

/-!
# Submission to a BFT ordering service

The gateway sends a transaction to all orderers and waits until a quorum of
them has accepted it.  The size of a quorum is computed with 64-bit floats.
-/

namespace FabricSequencer.Gateway

open Finset

/-- The float nearest to a natural number: 53 bits, and halves go to the even
neighbour. -/
def float64 (n : ℕ) : ℕ :=
  let unit := 2 ^ (n.log2 - 52)
  let quotient := n / unit
  if 2 * (n % unit) > unit ∨ 2 * (n % unit) = unit ∧ quotient % 2 = 1 then (quotient + 1) * unit
  else quotient * unit

def computeBFTQuorum (N : ℕ) : ℕ × ℕ :=
  let F := (N - 1) / 3
  ((float64 (float64 (float64 N + float64 F) + 1) + 1) / 2, F)

variable {ErrorDetail : Type}

/-- The loop over the responses in the order of their arrival; `none` is a
success. -/
def submitLoop (total quorum : ℤ) : ℕ → ℕ → List ErrorDetail → List (Option ErrorDetail) →
    Except (List ErrorDetail) Unit
  | _, _, errDetails, [] => .error errDetails
  | successes, failures, errDetails, some osnErr :: rest =>
    if failures + 1 > total - quorum then .error (errDetails ++ [osnErr])
    else submitLoop total quorum successes (failures + 1) (errDetails ++ [osnErr]) rest
  | successes, failures, errDetails, none :: rest =>
    if successes + 1 ≥ quorum then .ok ()
    else submitLoop total quorum (successes + 1) failures errDetails rest

def submitBFT (clusterSize : ℕ) (arrivals : List (Option ErrorDetail)) :
    Except (List ErrorDetail) Unit :=
  submitLoop arrivals.length (computeBFTQuorum clusterSize).1 0 0 [] arrivals

/-! ## The quorum -/

/-- The orderers are the numbers below `N`. -/
structure IsQuorum (N F Q : ℕ) : Prop where
  live : Q ≤ N - F
  common : ∀ s ⊆ range N, ∀ t ⊆ range N, #s = Q → #t = Q → F + 1 ≤ #(s ∩ t)
  least : ∀ q < Q, ∃ s ⊆ range N, ∃ t ⊆ range N, #s = q ∧ #t = q ∧ #(s ∩ t) ≤ F

theorem float64_of_le {n : ℕ} (hn : n ≤ 2 ^ 53) : float64 n = n := by
  rcases hn.eq_or_lt with rfl | hlt
  · decide
  · have hun : n.log2 - 52 = 0 := by
      rcases Nat.eq_zero_or_pos n with rfl | hpos
      · rfl
      · have hl := (Nat.log2_lt hpos.ne').mpr hlt
        omega
    simp [float64, hun, Nat.mod_one]

theorem float64_pos {n : ℕ} (hn : 0 < n) : 0 < float64 n := by
  have hun : 0 < 2 ^ (n.log2 - 52) := by positivity
  have hle : 2 ^ (n.log2 - 52) ≤ n :=
    (Nat.pow_le_pow_right two_pos (Nat.sub_le _ _)).trans (Nat.log2_self_le hn.ne')
  have hqt := Nat.div_pos hle hun
  unfold float64
  dsimp only
  split_ifs <;> positivity

theorem computeBFTQuorum_pos (N : ℕ) : 0 < (computeBFTQuorum N).1 := by
  have hp : 0 < float64 (float64 (float64 N + float64 ((N - 1) / 3)) + 1) :=
    float64_pos (Nat.succ_pos _)
  dsimp only [computeBFTQuorum]
  omega

theorem two_mul_card_le {N Q : ℕ} {s t : Finset ℕ} (hs : s ⊆ range N) (ht : t ⊆ range N)
    (hsc : #s = Q) (htc : #t = Q) : 2 * Q ≤ N + #(s ∩ t) := by
  have hun := card_le_card (union_subset hs ht)
  have hm := card_union_add_card_inter s t
  rw [card_range] at hun
  omega

theorem exists_few_common {N F q : ℕ} (hq : q ≤ N) (hf : 2 * q ≤ N + F) :
    ∃ s ⊆ range N, ∃ t ⊆ range N, #s = q ∧ #t = q ∧ #(s ∩ t) ≤ F := by
  refine ⟨range q, by simpa using hq, Ico (N - q) N, ?_, card_range q, ?_, ?_⟩
  · intro i hi
    simp only [mem_Ico] at hi
    exact mem_range.mpr hi.2
  · rw [Nat.card_Ico]
    omega
  · have hin : range q ∩ Ico (N - q) N = Ico (N - q) q := by
      ext i
      simp only [mem_inter, mem_range, mem_Ico]
      omega
    rw [hin, Nat.card_Ico]
    omega

theorem isQuorum_computeBFTQuorum {N : ℕ} (hN : 1 ≤ N) (hsm : N ≤ 3 * 2 ^ 51) :
    IsQuorum N (computeBFTQuorum N).2 (computeBFTQuorum N).1 := by
  have hF : (computeBFTQuorum N).2 = (N - 1) / 3 := rfl
  have hQ : (computeBFTQuorum N).1 = (N + (N - 1) / 3 + 1 + 1) / 2 := by
    dsimp only [computeBFTQuorum]
    rw [float64_of_le (n := N) (by omega), float64_of_le (n := (N - 1) / 3) (by omega),
      float64_of_le (n := N + (N - 1) / 3) (by omega), float64_of_le (by omega)]
  rw [hF, hQ]
  refine ⟨by omega, ?_, ?_⟩
  · intro s hs t ht hsc htc
    have hc := two_mul_card_le hs ht hsc htc
    omega
  · intro q hq
    exact exists_few_common (by omega) (by omega)

/-! ## The loop -/

theorem submitLoop_ok_iff {total quorum : ℤ} {successes failures : ℕ}
    {errDetails : List ErrorDetail} {tl : List (Option ErrorDetail)}
    (htl : total = successes + failures + tl.length) (hop : successes < quorum) :
    submitLoop total quorum successes failures errDetails tl = .ok () ↔
      quorum ≤ successes + tl.countP Option.isNone := by
  induction tl generalizing successes failures errDetails with
  | nil => simpa [submitLoop] using hop
  | cons response tl ih =>
    have hc := tl.countP_le_length (p := Option.isNone)
    rw [List.length_cons] at htl
    push_cast at htl
    cases response with
    | some osnErr =>
      rw [submitLoop, List.countP_cons_of_neg (by simp)]
      split_ifs with hmany
      · simp only [false_iff, not_le]
        omega
      · exact ih (by push_cast; omega) hop
    | none =>
      rw [submitLoop, List.countP_cons_of_pos rfl]
      split_ifs with henough
      · simp only [true_iff]
        push_cast
        omega
      · rw [ih (by push_cast; omega) (by push_cast; omega)]
        push_cast
        omega

/-- Up to `3 * 2 ^ 51` orderers the floats are exact. -/
theorem submitBFT_ok_iff_quorum {N : ℕ} (hN : 1 ≤ N) :
    (N ≤ 3 * 2 ^ 51 → IsQuorum N (computeBFTQuorum N).2 (computeBFTQuorum N).1) ∧
      ∀ outcomes arrivals : List (Option ErrorDetail), arrivals.Perm outcomes →
        (submitBFT N arrivals = .ok () ↔
          (computeBFTQuorum N).1 ≤ outcomes.countP Option.isNone) := by
  refine ⟨isQuorum_computeBFTQuorum hN, ?_⟩
  intro outcomes arrivals hpr
  rw [submitBFT, submitLoop_ok_iff (by simp) (by exact_mod_cast computeBFTQuorum_pos N),
    hpr.countP_eq]
  norm_cast
  rw [Nat.zero_add]

theorem submitBFT_ok_iff_quorum_four :
    (submitBFT 4 [none, some (), none, none] : Except (List Unit) Unit) = .ok () :=
  ((submitBFT_ok_iff_quorum (by decide)).2 _ _ (.refl _)).mpr (by decide)

/-- Two sets of the computed size have too few orderers in common. -/
theorem rounded_not_isQuorum :
    ¬ IsQuorum 6755399441055745 (computeBFTQuorum 6755399441055745).2
      (computeBFTQuorum 6755399441055745).1 := by
  have hrnd : computeBFTQuorum 6755399441055745 = (4503599627370496, 2251799813685248) := by
    decide
  rw [hrnd]
  intro hqrm
  obtain ⟨s, hs, t, ht, hsc, htc, hfew⟩ :=
    exists_few_common (N := 6755399441055745) (F := 2251799813685248) (q := 4503599627370496)
      (by norm_num) (by norm_num)
  have hcmn := hqrm.common s hs t ht hsc htc
  omega

end FabricSequencer.Gateway
