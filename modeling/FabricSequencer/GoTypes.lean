import FabricSequencer.ProtoWire
import Mathlib.Data.List.Lex
import Mathlib.Order.Fin.Basic

/-!
# Go's byte strings and fixed-width integers

A Go `string` and a Go `[]byte` are both byte sequences.  Strings are compared
byte by byte, which is the lexicographic order of Mathlib.  An unsigned
integer is a natural number together with the truncation its type applies.
-/

namespace FabricSequencer

abbrev Byte := Fin 256

abbrev Bytes := List Byte

instance bytes_lawfulBEq : LawfulBEq Bytes := inferInstance

/-- A Go `string`.  The order on it is `strings.Compare`. -/
abbrev GoString := List Byte

section

variable (n : ℕ)

def uint8 : ℕ := n % 2 ^ 8

def uint32 : ℕ := n % 2 ^ 32

def uint64 : ℕ := n % 2 ^ 64

theorem uint32_lt : uint32 n < 2 ^ 32 := Nat.mod_lt n (by norm_num)

theorem uint64_lt : uint64 n < 2 ^ 64 := Nat.mod_lt n (by norm_num)

end

theorem uint32_of_lt {n : ℕ} (hn : n < 2 ^ 32) : uint32 n = n := Nat.mod_eq_of_lt hn

theorem uint64_of_lt {n : ℕ} (hn : n < 2 ^ 64) : uint64 n = n := Nat.mod_eq_of_lt hn

theorem uint64_add_eq_iff {n lost : ℕ} : uint64 (n + lost) = uint64 n ↔ 2 ^ 64 ∣ lost := by
  unfold uint64
  constructor
  · intro heq
    have hmod : n + lost ≡ n + 0 [MOD 2 ^ 64] := heq
    exact (Nat.modEq_zero_iff_dvd).mp (Nat.ModEq.add_left_cancel' _ hmod)
  · rintro ⟨_, rfl⟩
    exact Nat.add_mul_mod_self_left _ _ _

/-- The bytes of an ASCII literal of the source. -/
def ascii (text : String) : GoString :=
  text.toList.map fun character => Fin.ofNat 256 character.toNat

def printed (text : GoString) : String := String.ofList (text.map fun byte => Char.ofNat byte)

inductive Failure where
  | error (text : String)
  | panic (text : String)
deriving DecidableEq

abbrev Outcome (α : Type) := Except Failure α

/-- A library call that returns an error or a result but does not panic. -/
def Outcome.returned {α : Type} : Except String α → Outcome α
  | .error text => .error (.error text)
  | .ok result => .ok result

/-- `errors.WithMessage` and `errors.Wrap`. -/
def Outcome.withMessage {α : Type} (text : String) : Outcome α → Outcome α
  | .error (.error cause) => .error (.error (text ++ ": " ++ cause))
  | other => other

def Outcome.orPanic {α : Type} (text : String) : Outcome α → Outcome α
  | .error (.error cause) => .error (.panic (text ++ ": " ++ cause))
  | other => other

section Bind

variable {ε α β : Type} {first : Except ε α} {next : α → Except ε β} {result : β}

theorem Except.bind_eq_ok_iff :
    (first >>= next) = .ok result ↔ ∃ v, first = .ok v ∧ next v = .ok result := by
  cases first with
  | error | ok => simp [bind, Except.bind]

theorem of_bind (hbn : (first >>= next) = .ok result) : ∃ v, first = .ok v ∧ next v = .ok result :=
  Except.bind_eq_ok_iff.mp hbn

theorem bind_of_ok {v : α} (hf : first = .ok v) (hnx : next v = .ok result) :
    (first >>= next) = .ok result :=
  Except.bind_eq_ok_iff.mpr ⟨v, hf, hnx⟩

end Bind

theorem Except.eq_ok_of_toOption {ε α : Type} {outcome : Except ε α}
    {result : α} (hsm : outcome.toOption = some result) : outcome = .ok result := by
  cases outcome with
  | error => cases hsm
  | ok =>
    cases hsm
    rfl

variable {ε α β : Type} {items : List α} {turn : α → Except ε β}

theorem Except.of_mapM {res : List β} (hm : items.mapM turn = .ok res) :
    (∀ it ∈ items, ∃ result ∈ res, turn it = .ok result) ∧
      ∀ result ∈ res, ∃ it ∈ items, turn it = .ok result := by
  induction items generalizing res with
  | nil =>
    cases hm
    simp
  | cons _ _ ih =>
    rw [List.mapM_cons, Except.bind_eq_ok_iff] at hm
    obtain ⟨_, hfirst, hm⟩ := hm
    obtain ⟨_, hrest, hpure⟩ := of_bind hm
    cases hpure
    have htail := ih hrest
    grind

theorem Except.exists_mapM_iff :
    (∃ res, items.mapM turn = .ok res) ↔ ∀ it ∈ items, ∃ result, turn it = .ok result := by
  constructor
  · rintro ⟨_, hm⟩ _ hit
    obtain ⟨result, -, htr⟩ := (Except.of_mapM hm).1 _ hit
    exact ⟨result, htr⟩
  intro ha
  induction items with
  | nil => exact ⟨[], rfl⟩
  | cons first _ ih =>
    obtain ⟨result, hf⟩ := ha first List.mem_cons_self
    obtain ⟨res, hrs⟩ := ih fun it hit => ha it (List.mem_cons_of_mem _ hit)
    refine ⟨result :: res, ?_⟩
    rw [List.mapM_cons, hf, hrs]
    rfl

variable {turn : β → α → Except ε β}

theorem Except.exists_foldlM_iff
    {good : α → Prop} (htr : ∀ s item, (∃ next, turn s item = .ok next) ↔ good item) {s : β} :
    (∃ la, items.foldlM turn s = .ok la) ↔ ∀ item ∈ items, good item := by
  induction items generalizing s with
  | nil => exact iff_of_true ⟨s, rfl⟩ (by simp)
  | cons item _ ih =>
    rw [List.forall_mem_cons, ← htr s item]
    constructor
    · rintro ⟨la, hla⟩
      rw [List.foldlM_cons, Except.bind_eq_ok_iff] at hla
      obtain ⟨next, hnx, hrs⟩ := hla
      exact ⟨⟨next, hnx⟩, ih.mp ⟨la, hrs⟩⟩
    · rintro ⟨⟨_, hnx⟩, hitems⟩
      obtain ⟨la, hla⟩ := ih.mpr hitems
      exact ⟨la, by rw [List.foldlM_cons, hnx]; exact hla⟩

variable {start result : β}

theorem Except.exists_step_of_foldlM (hfl : items.foldlM turn start = .ok result)
    {it : α} (hit : it ∈ items) : ∃ pre after, turn pre it = .ok after := by
  induction items generalizing start with
  | nil => cases hit
  | cons _ _ ih =>
    rw [List.foldlM_cons, Except.bind_eq_ok_iff] at hfl
    obtain ⟨after, htr, hrs⟩ := hfl
    rcases List.mem_cons.mp hit with rfl | hmem
    · exact ⟨start, after, htr⟩
    · exact ih hrs hmem

/-- A fold that succeeds keeps what every turn keeps, and what a turn does for
its element is still done at the end. -/
theorem Except.foldlM_collects (grows : β → β → Prop) (done : α → β → Prop)
    (hfl : items.foldlM turn start = .ok result) (hrf : ∀ pre, grows pre pre)
    (htr : ∀ {first second third}, grows first second → grows second third → grows first third)
    (htu : ∀ {pre it after}, turn pre it = .ok after → grows pre after ∧ done it after)
    (hkp : ∀ {it pre after}, grows pre after → done it pre → done it after) :
    grows start result ∧ ∀ it ∈ items, done it result := by
  induction items generalizing start with
  | nil =>
    cases hfl
    exact ⟨hrf _, by simp⟩
  | cons _ _ ih =>
    rw [List.foldlM_cons, Except.bind_eq_ok_iff] at hfl
    obtain ⟨_, hf, hrs⟩ := hfl
    obtain ⟨hgr, hdo⟩ := htu hf
    obtain ⟨hl, hit⟩ := ih hrs
    refine ⟨htr hgr hl, ?_⟩
    intro it him
    rcases List.mem_cons.mp him with rfl | hmem
    · exact hkp hl hdo
    · exact hit it hmem

theorem Except.foldlM_invariant {motive : β → Prop}
    (hfl : items.foldlM turn start = .ok result) (hsr : motive start)
    (htr : ∀ pre it post, it ∈ items → turn pre it = .ok post → motive pre → motive post) :
    motive result := by
  induction items generalizing start with
  | nil =>
    cases hfl
    exact hsr
  | cons first _ ih =>
    rw [List.foldlM_cons, Except.bind_eq_ok_iff] at hfl
    obtain ⟨post, hf, hrs⟩ := hfl
    exact ih hrs (htr start first post List.mem_cons_self hf hsr) fun pre it next hit =>
        htr pre it next (List.mem_cons_of_mem first hit)

variable {α β : Type}

theorem foldl_collects_iff {turn : β → α → β} (has : β → Prop) (brings : α → Prop)
    (htr : ∀ pre item, has (turn pre item) ↔ has pre ∨ brings item) (items : List α) (start : β) :
    has (items.foldl turn start) ↔ has start ∨ ∃ item ∈ items, brings item := by
  induction items generalizing start with
  | nil => simp
  | cons _ _ ih =>
    rw [List.foldl_cons, ih, htr, or_assoc]
    simp only [List.mem_cons, or_and_right, exists_or, exists_eq_left]

theorem Outcome.forM_eq_ok_iff {items : List α} {check : α → Outcome Unit} :
    items.forM check = .ok () ↔ ∀ it ∈ items, check it = .ok () := by
  induction items with
  | nil =>
    simp only [List.not_mem_nil, false_imp_iff, implies_true, iff_true]
    rfl
  | cons it items ih =>
    change (check it >>= fun _ => items.forM check) = .ok () ↔ _
    rw [Except.bind_eq_ok_iff, List.forall_mem_cons, ← ih]
    constructor
    · rintro ⟨_, hit, hrs⟩
      exact ⟨hit, hrs⟩
    · rintro ⟨hit, hrs⟩
      exact ⟨(), hit, hrs⟩

@[simp] theorem Outcome.returned_eq_ok_iff {outcome : Except String α} {result : α} :
    Outcome.returned outcome = .ok result ↔ outcome = .ok result := by
  cases outcome <;> simp [Outcome.returned]

variable {outcome : Outcome α}

@[simp] theorem Outcome.withMessage_eq_ok_iff {text : String} {result : α} :
    outcome.withMessage text = .ok result ↔ outcome = .ok result := by
  rcases outcome with (cause | cause) | v <;> simp [Outcome.withMessage]

@[simp] theorem Outcome.orPanic_eq_ok_iff {text : String} {result : α} :
    outcome.orPanic text = .ok result ↔ outcome = .ok result := by
  rcases outcome with (cause | cause) | v <;> simp [Outcome.orPanic]

def Outcome.NoPanic {α : Type} (outcome : Outcome α) : Prop :=
  ∀ text, outcome ≠ .error (.panic text)

theorem Outcome.noPanic_ok (result : α) : Outcome.NoPanic (.ok result) := by
  intro text
  simp

theorem Outcome.noPanic_error (cause : String) :
    Outcome.NoPanic (.error (.error cause) : Outcome α) := by
  intro text
  simp

theorem Outcome.noPanic_returned (outcome : Except String α) :
    (Outcome.returned outcome).NoPanic := by
  intro text
  cases outcome <;> simp [Outcome.returned]

theorem Outcome.NoPanic.withMessage (hn : outcome.NoPanic) (text : String) :
    (outcome.withMessage text).NoPanic := by
  intro other
  rcases outcome with (cause | cause) | _
  · simp [Outcome.withMessage]
  · exact absurd rfl (hn cause)
  · simp [Outcome.withMessage]

theorem Outcome.NoPanic.bind {first : Outcome α} {next : α → Outcome β} (hf : first.NoPanic)
    (hnx : ∀ v, first = .ok v → (next v).NoPanic) : Outcome.NoPanic (first >>= next) := by
  intro text
  rcases first with (cause | cause) | v
  · simp [Bind.bind, Except.bind]
  · exact absurd rfl (hf cause)
  · exact hnx v rfl text

theorem Outcome.NoPanic.mapM {turn : α → Outcome β} {items : List α}
    (ha : ∀ it ∈ items, (turn it).NoPanic) : Outcome.NoPanic (items.mapM turn) := by
  induction items with
  | nil => exact Outcome.noPanic_ok _
  | cons first _ ih =>
    rw [List.mapM_cons]
    apply (ha first List.mem_cons_self).bind
    intro _ _
    apply (ih fun it hit => ha it (List.mem_cons_of_mem _ hit)).bind
    intro _ _
    exact Outcome.noPanic_ok _

theorem Outcome.NoPanic.foldlM {turn : β → α → Outcome β} (htr : ∀ s it, (turn s it).NoPanic)
    (items : List α) (s : β) : Outcome.NoPanic (items.foldlM turn s) := by
  induction items generalizing s with
  | nil => exact Outcome.noPanic_ok _
  | cons it _ ih =>
    rw [List.foldlM_cons]
    apply (htr s it).bind
    intro next _
    exact ih next

end FabricSequencer
