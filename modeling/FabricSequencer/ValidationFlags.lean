import FabricSequencer.ValidationTracking

/-!
# The validation flags of a block

`Validate` collects the results of the workers.  What they are depends on the
order in which the workers go through the namespaces of their transactions,
since a worker stops at the first one that fails: the flags are a function of
the block and the state as long as it does not matter which one that is.
-/

namespace FabricSequencer.TxValidator

open Protoutil Framing Statebased List

def TxResult.error : TxResult → Option String
  | .err text => some text
  | .flag _ _ => none

def TxResult.code : TxResult → Flag
  | .flag code _ => code
  | .err _ => .notValidated

/-- The entry of `txidArray`. -/
def TxResult.validTxid : TxResult → GoString
  | .flag .valid txid => txid
  | _ => []

/-- `markTXIdDuplicates`, with the identifiers that have been seen. -/
def markTXIdDuplicates : List GoString → List (GoString × Flag) → List Flag
  | _, [] => []
  | txidMap, (txid, flag) :: rest =>
    if txid = [] then flag :: markTXIdDuplicates txidMap rest
    else if txid ∈ txidMap then
      .duplicateTxid :: markTXIdDuplicates txidMap rest
    else flag :: markTXIdDuplicates (txid :: txidMap) rest

def allValidated (blockNumber : ℕ) (txsfltr : List Flag) : Except String Unit :=
  match txsfltr.findIdx? (· = .notValidated) with
  | some id => .error ("transaction " ++ toString id ++ " in block " ++
      toString blockNumber ++ " has skipped validation")
  | none => .ok ()

/-- The end of `Validate`: the error of the first transaction that has one, or
the flags. -/
def validate (blockNumber : ℕ) (results : List TxResult) : Except String (List Flag) :=
  match results.findSome? TxResult.error with
  | some text => .error text
  | none => do
      let txsfltr := markTXIdDuplicates []
        (results.map fun result => (result.validTxid, result.code))
      allValidated blockNumber txsfltr
      return txsfltr

/-- All workers of the block have ended, with these results. -/
def Completed (block : List Bytes) (state : State) (result : ℕ → TxResult) : Prop :=
  state.crashed = false ∧ ∀ i < block.length, state.stage i = .done (result i)

def blockOutcome (v : Validator) (block : List Bytes) (result : ℕ → TxResult) :
    Except String (List Flag) :=
  validate v.blockNumber ((List.range block.length).map result)

/-- Both validations return an error, or both return the same flags. -/
def Agree : Except String (List Flag) → Except String (List Flag) → Prop
  | .error _, .error _ => True
  | .ok flags, .ok others => flags = others
  | _, _ => False

/-! ## Failing namespaces -/

def Alike (result result' : TxResult) : Prop :=
  result = result' ∨ result.error.isSome ∧ result'.error.isSome

/-- Any two namespaces of the transaction that fail do so alike. -/
def FailsAlike (v : Validator) (block : List Bytes) (i : ℕ) : Prop :=
  ∀ txID env namespaces, validateTx v (txBytes block i) = .dispatched txID env namespaces →
    ∀ ns ∈ namespaces, ∀ ns' ∈ namespaces, ∀ result result',
      FailsWith v block i ns result → FailsWith v block i ns' result' → Alike result result'

section Outcomes

variable {v : Validator} {block : List Bytes} {i : ℕ}

theorem not_passes_of_failsWith {ns : GoString} {result : TxResult}
    (hfails : FailsWith v block i ns result) : ¬ Passes v block i ns := by
  rintro ⟨ccEP, hinfo, hverdict⟩
  rcases hfails with ⟨_, hrefused, -⟩ | ⟨ccEP', err, hinfo', herror, -⟩
  · rw [hinfo] at hrefused
    cases hrefused
  · rw [hinfo] at hinfo'
    cases hinfo'
    rw [hverdict] at herror
    cases herror

theorem Ends.alike {recorded recorded' : GoString → Prop} {result result' : TxResult}
    (hfails : FailsAlike v block i) (hends : Ends v block i recorded result)
    (hends' : Ends v block i recorded' result') : Alike result result' := by
  unfold Ends at hends hends'
  cases hentry : validateTx v (txBytes block i) with
  | finished expected =>
    rw [hentry] at hends hends'
    exact .inl (hends.1.trans hends'.1.symm)
  | dispatched txID env namespaces =>
    rw [hentry] at hends hends'
    -- a worker that passes all namespaces meets none that fails
    cases hends with
    | passed hpasses =>
      cases hends' with
      | passed => exact .inl rfl
      | failed hlast hfailed => exact absurd (hpasses _ hlast) (not_passes_of_failsWith hfailed)
    | failed hlast hfailed =>
      cases hends' with
      | passed hpasses => exact absurd (hpasses _ hlast) (not_passes_of_failsWith hfailed)
      | failed hlast' hfailed' =>
        exact hfails txID env namespaces hentry _ hlast _ hlast' _ _ hfailed hfailed'

theorem completed_ends {workers : ℕ} {events : List Event} {result : ℕ → TxResult}
    (hcompleted : Completed block (run v block workers events) result) (hi : i < block.length) :
    Ends v block i ((run v block workers events).recorded i) (result i) := by
  have hprogress := ((run_tracked v block workers events).1.stages i).progress
  rw [hcompleted.2 i hi] at hprogress
  exact hprogress

theorem blockOutcome_of_error {result : ℕ → TxResult} (hi : i < block.length)
    (herror : (result i).error.isSome) : ∃ text, blockOutcome v block result = .error text := by
  have hmem : result i ∈ (List.range block.length).map result :=
    mem_map.mpr ⟨i, mem_range.mpr hi, rfl⟩
  cases hfind : ((List.range block.length).map result).findSome? TxResult.error with
  | none =>
    rw [findSome?_eq_none_iff.mp hfind _ hmem] at herror
    cases herror
  | some text =>
    unfold blockOutcome validate
    rw [hfind]
    exact ⟨text, rfl⟩

theorem agree_of_alike {result result' : ℕ → TxResult}
    (halike : ∀ i < block.length, Alike (result i) (result' i)) :
    Agree (blockOutcome v block result) (blockOutcome v block result') := by
  by_cases herrors : ∃ i < block.length, (result i).error.isSome ∧ (result' i).error.isSome
  · obtain ⟨i, hi, herror, herror'⟩ := herrors
    obtain ⟨text, houtcome⟩ := blockOutcome_of_error (v := v) hi herror
    obtain ⟨text', houtcome'⟩ := blockOutcome_of_error (v := v) hi herror'
    rw [houtcome, houtcome']
    trivial
  · have hsame : (List.range block.length).map result = (List.range block.length).map result' := by
      apply map_congr_left
      intro i hi
      rw [mem_range] at hi
      exact (halike i hi).resolve_right fun hboth => herrors ⟨i, hi, hboth⟩
    unfold blockOutcome
    rw [hsame]
    cases validate v.blockNumber ((List.range block.length).map result') with
    | error => trivial
    | ok => exact rfl

end Outcomes

def twoWrites (getInfo : GoString → Except InfoError Bytes) : Validator :=
  sampleValidator
    (fun _ => .ok ⟨[⟨[110], ⟨[], [], [⟨[112], false, [1]⟩], []⟩, []⟩,
      ⟨[111], ⟨[], [], [⟨[112], false, [1]⟩], []⟩, []⟩]⟩)
    getInfo

/-- No chaincode of either name is committed. -/
def unknownNamespaces : Validator := twoWrites fun _ => .error (.invalid "not found")

/-- The policy of the first namespace refuses the transaction, and the second
belongs to no chaincode. -/
def twoNamespaces : Validator :=
  twoWrites fun ns => if ns = [110] then .ok [2] else .error (.invalid "not found")

end FabricSequencer.TxValidator
