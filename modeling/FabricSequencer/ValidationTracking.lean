import FabricSequencer.ValidationVerdicts

/-!
# What a run records

What a worker records for a namespace does not depend on the schedule: it is
the verdict on its transaction.  The results that it has recorded and the
namespaces that are left to it make up those of its transaction.

A transaction whose validation succeeds is therefore endorsed for every key
that it writes, and no transaction before it whose validation succeeds has set
the validation parameter of such a key.
-/

namespace FabricSequencer.TxValidator

open Protoutil Framing Statebased List Outcome Function

variable (v : Validator) (block b : List Bytes)

def Stage.current : Stage → Option GoString
  | .preparing ns _ _ _ => some ns
  | .evaluating job _ _ => some job.ns
  | .awaiting job _ _ _ _ => some job.ns
  | .blocked job _ _ _ _ _ => some job.ns
  | _ => none

/-- The effects that a move of worker `i` can have.  Only a result brings it to
another namespace. -/
inductive Change (i : ℕ) (state : State) : State → Prop where
  | nothing : Change i state state
  | stage (next : Stage) (hnext : next ≠ .waiting)
      (hcurrent : (state.stage i).current = none ∨ next.current = (state.stage i).current) :
      Change i state (state.setStage i next)
  | extract {ns : GoString} {rest : List GoString} {ccEP : Bytes} {j : ℕ}
      (hat : state.stage i = .preparing ns rest ccEP (j + 1)) :
      Change i state ((state.extract v block j).setStage i (.preparing ns rest ccEP j))
  | crash {ns : GoString} {rest : List GoString} {ccEP : Bytes} {text : String}
      (hat : state.stage i = .preparing ns rest ccEP 0)
      (hpanic : extractValidationArtifacts v (txBytes block i) = .error (.panic text)) :
      Change i state { state with crashed := true }
  | post (ns : GoString) (rest : List GoString) (result : NsResult)
      (hcurrent : (state.stage i).current = some ns) :
      Change i state (state.post i ns rest result)

section Frame

variable {v block b} {s s' : State} {i : ℕ}

theorem unpack_change (ns : GoString) (rest : List GoString) (ccEP : Bytes)
    (hat : s.stage i = .preparing ns rest ccEP 0) :
    Change v b i s (s.unpack v b i ns rest ccEP) := by
  have hc : (s.stage i).current = some ns := by
    rw [hat]
    rfl
  unfold State.unpack
  split
  · exact .crash hat ‹_›
  · exact .post _ _ _ hc
  · split
    · exact .post _ _ _ hc
    · exact .stage _ (by simp) (.inr hc.symm)

theorem move_change (ch : ℕ) : Change v b i s (s.move v b i ch) := by
  unfold State.move
  split
  case h_1 => exact .nothing
  case h_2 hat => split <;> exact .stage _ (by simp) (.inl (by rw [hat]; rfl))
  case h_3 hat =>
    split
    · exact .nothing
    · split <;> exact .stage _ (by simp) (.inl (by rw [hat]; rfl))
  case h_4 hat => exact .extract hat
  case h_5 hat => exact unpack_change _ _ _ hat
  case h_6 hat => exact .post _ _ _ (by rw [hat]; rfl)
  case h_7 hat =>
    split_ifs
    · exact .stage _ (by simp) (.inr (by rw [hat]; rfl))
    · exact .nothing
  case h_8 hat =>
    split
    · exact .nothing
    · exact .stage _ (by simp) (.inr (by rw [hat]; rfl))
  case h_9 hat =>
    split
    · exact .post _ _ _ (by rw [hat]; rfl)
    · exact .stage _ (by simp) (.inr (by rw [hat]; rfl))
  case h_10 hat =>
    split
    · exact .nothing
    · exact .stage _ (by simp) (.inr (by rw [hat]; rfl))
    · split
      · exact .post _ _ _ (by rw [hat]; rfl)
      · exact .nothing
  case h_11 => exact .nothing

@[simp] theorem extract_stage (j : ℕ) : (s.extract v b j).stage = s.stage := by
  unfold State.extract
  split_ifs
  · rfl
  · split <;> rfl

@[simp] theorem extract_results (j : ℕ) : (s.extract v b j).results = s.results := by
  unfold State.extract
  split_ifs
  · rfl
  · split <;> rfl

@[simp] theorem extract_started (j : ℕ) : (s.extract v b j).started = s.started := by
  unfold State.extract
  split_ifs
  · rfl
  · split <;> rfl

section

variable (hchg : Change v b i s s')

include hchg

theorem Change.started_eq : s'.started = s.started := by
  cases hchg with
  | nothing | stage => rfl
  | extract => exact extract_started _
  | crash | post => rfl

theorem Change.stage_eq {l : ℕ} (hl : l ≠ i) : s'.stage l = s.stage l := by
  cases hchg with
  | nothing => rfl
  | stage | extract => simp [State.setStage, hl]
  | crash => rfl
  | post => simp [State.post, hl]

theorem Change.results_eq {l : ℕ} (hl : l ≠ i) : s'.results l = s.results l := by
  cases hchg with
  | nothing | stage => rfl
  | extract => simp [State.setStage]
  | crash => rfl
  | post => simp [State.post, hl]

end

theorem extract_extracted_mono {j l : ℕ} (hl : s.extracted l = true) :
    (s.extract v b j).extracted l = true := by
  unfold State.extract
  split_ifs
  · exact hl
  split
  · exact hl
  · by_cases heq : l = j
    · simp [heq]
    · simpa [heq] using hl
  · by_cases heq : l = j
    · simp [heq]
    · simpa [heq] using hl

end Frame

/-! ## Transactions that reach the plugins -/

section Dispatched

theorem unmarshalled_eq_ok_iff {α : Type} {nm : String} {result : Except ProtoWire.WireError α}
    {value : α} : unmarshalled nm result = .ok value ↔ result = .ok value := by
  cases result <;> simp [unmarshalled]

/-- The messages that `GetActionFromEnvelope` has read. -/
structure ActionRead (envBytes : Bytes) (env : Envelope) (payload : Payload)
    (response : Bytes) (endorsements : List Endorsement) (action : ChaincodeAction) : Prop where
  envelope_ok : unmarshal envBytes = .ok env
  payload_ok : unmarshalPayload env.payload = .ok payload
  parsed : ∃ first rest extension,
    v.codec.unmarshalTransaction payload.data = .ok (first :: rest) ∧
      v.codec.unmarshalChaincodeActionPayload first = .ok (some ⟨some response, endorsements⟩) ∧
      v.codec.unmarshalProposalResponsePayload response = .ok (some extension) ∧
      v.codec.unmarshalChaincodeAction extension = .ok action

structure DispatchedTx (j : ℕ) (namespaces : List GoString)
    (va : ValidationArtifacts) : Prop where
  artifacts : extractValidationArtifacts v (txBytes block j) = .ok va
  nodup : namespaces.Nodup

variable {v block b}

theorem getActionFromEnvelope_read {envBytes : Bytes} {action : ChaincodeAction}
    (hg : getActionFromEnvelope v envBytes = .ok action) :
    ∃ env pl response endorsements, ActionRead v envBytes env pl response endorsements action := by
  obtain ⟨env, he, hg⟩ := of_bind hg
  obtain ⟨pl, hp, hg⟩ := of_bind hg
  obtain ⟨actions, hc, hg⟩ := of_bind hg
  rw [unmarshalled_eq_ok_iff] at he hp
  rw [returned_eq_ok_iff] at hc
  cases actions with
  | nil => cases hg
  | cons first rest =>
    obtain ⟨_, hcap, hg⟩ := of_bind hg
    rw [returned_eq_ok_iff] at hcap
    split at hg
    next response endorsements =>
      obtain ⟨extension, hex, hg⟩ := of_bind hg
      rw [returned_eq_ok_iff] at hex
      cases extension with
      | none => cases hg
      | some extension =>
        rw [returned_eq_ok_iff] at hg
        exact ⟨env, pl, response, endorsements, he, hp, first, rest, extension, hc, hcap, hex, hg⟩
    · cases hg

variable {nss : List GoString}

theorem visited_ok {ccID : GoString} {txRWSet : TxRwSet}
    (hv : wrNamespaces.visited ccID txRWSet = .ok nss) : nss.Nodup := by
  unfold wrNamespaces.visited at hv
  split_ifs at hv
  cases hv
  exact nodup_dedup _

theorem wrNamespaces_ok {header : Header} {envBytes : Bytes}
    (hn : wrNamespaces v header envBytes = .ok nss) :
    ∃ action, getActionFromEnvelope v envBytes = .ok action ∧ nss.Nodup := by
  unfold wrNamespaces at hn
  simp only at hn
  split at hn
  · cases hn
  split at hn
  · cases hn
  split at hn
  · cases hn
  rename_i action hc
  split at hn
  · cases hn
  refine ⟨action, hc, ?_⟩
  split at hn
  · cases hn
  · cases hn
  split_ifs at hn
  split at hn
  · cases hn
  · split_ifs at hn
    exact visited_ok hn
  · exact visited_ok hn

theorem validateTx_dispatched {j : ℕ} {txID : GoString} {env : Envelope}
    (he : validateTx v (txBytes b j) = .dispatched txID env nss) :
    ∃ va, DispatchedTx v b j nss va := by
  unfold validateTx at he
  split at he
  · cases he
  rename_i env hn
  split at he
  · cases he
  rename_i header data htr
  split at he
  · cases he
  rename_i chdr hch
  split_ifs at he with hchain htype hcfg
  · split at he
    · cases he
    · cases he
    split at he
    · cases he
    rename_i f hs
    cases he
    obtain ⟨action, ht, hnd⟩ := wrNamespaces_ok hs
    obtain ⟨env', pl, response, endorsements, hrd⟩ := getActionFromEnvelope_read ht
    obtain ⟨_, _, _, htx, hc, hrs, hp⟩ := hrd.parsed
    have heq : env' = env := by
      have hbo := hrd.envelope_ok.symm.trans hn
      cases hbo
      rfl
    subst heq
    have hh : pl.header = some header := by
      unfold validateTransaction at htr
      rw [hrd.payload_ok] at htr
      simp only at htr
      split at htr
      · cases htr
      rename_i f hg
      split at htr
      · cases htr
      · cases htr
        exact hg
    refine ⟨⟨action.results, response, endorsements⟩, ?_, hnd⟩
    unfold extractValidationArtifacts
    refine bind_of_ok (unmarshalled_eq_ok_iff.mpr hrd.envelope_ok) ?_
    refine bind_of_ok (unmarshalled_eq_ok_iff.mpr hrd.payload_ok) ?_
    rw [hh]
    refine bind_of_ok (unmarshalled_eq_ok_iff.mpr hch) ?_
    rw [if_neg (not_not.mpr htype)]
    refine bind_of_ok (returned_eq_ok_iff.mpr htx) ?_
    refine bind_of_ok (returned_eq_ok_iff.mpr hc) ?_
    refine bind_of_ok (returned_eq_ok_iff.mpr hrs) ?_
    exact bind_of_ok (returned_eq_ok_iff.mpr hp) rfl
  · split at he <;> cases he

end Dispatched

def Inserts (j : ℕ) : Prop := ∃ keys, extractDependenciesForTx v (txBytes block j) = .ok keys

def Panics (j : ℕ) : Prop :=
  ∃ text, extractDependenciesForTx v (txBytes block j) = .error (.panic text)

variable (state s : State) (i : ℕ)

/-- How far `PreValidate` has come for a worker at this stage. -/
def ExtractedFor : Stage → Prop
  | .preparing _ _ _ count => count ≤ i + 1 ∧ ∀ j, count ≤ j → j ≤ i → state.extracted j = true
  | .evaluating _ _ _ => ∀ j ≤ i, state.extracted j = true
  | .awaiting _ _ _ _ _ => ∀ j ≤ i, state.extracted j = true
  | .blocked _ _ _ _ _ _ => ∀ j ≤ i, state.extracted j = true
  | _ => True

def State.recorded (j : ℕ) (ns : GoString) : Prop :=
  (state.results j ns).isSome = true

def Passes (ns : GoString) : Prop :=
  ∃ ccEP, v.getInfoForValidate ns = .ok ccEP ∧ verdict v block ns ccEP i = .ok ()

def FailsWith (ns : GoString) (result : TxResult) : Prop :=
  (∃ err, v.getInfoForValidate ns = .error err ∧ result = infoResult err) ∨
    ∃ ccEP err, v.getInfoForValidate ns = .ok ccEP ∧
      verdict v block ns ccEP i = .error err ∧ result = failedResult err

inductive DispatchEnds (i : ℕ) (txID : GoString) (env : Envelope)
    (namespaces : List GoString) (recorded : GoString → Prop) :
    TxResult → Prop where
  | passed (hpasses : ∀ ns ∈ namespaces, Passes v block i ns)
      (hrecorded : ∀ ns, recorded ns ↔ ns ∈ namespaces) :
      DispatchEnds i txID env namespaces recorded (lastResult v env txID)
  | failed {result : TxResult} {last : GoString} (hlast : last ∈ namespaces)
      (hfails : FailsWith v block i last result)
      (hself : recorded last ↔ ∃ ccEP, v.getInfoForValidate last = .ok ccEP)
      (hothers : ∀ ns, recorded ns → ns ∈ namespaces ∧ (ns = last ∨ Passes v block i ns)) :
      DispatchEnds i txID env namespaces recorded result

section

variable (recorded : GoString → Prop)

def Ends (result : TxResult) : Prop :=
  match validateTx v (txBytes block i) with
  | .finished expected => result = expected ∧ ∀ ns, ¬ recorded ns
  | .dispatched txID env namespaces => DispatchEnds v block i txID env namespaces recorded result

def Stage.remaining : Stage → List GoString
  | .choosing rest => rest
  | .preparing ns rest _ _ => ns :: rest
  | .evaluating job _ _ => job.ns :: job.rest
  | .awaiting job _ _ _ _ => job.ns :: job.rest
  | .blocked job _ _ _ _ _ => job.ns :: job.rest
  | _ => []

structure InLoop (remaining : List GoString) : Prop where
  dispatched : ∃ txID env namespaces,
    validateTx v (txBytes block i) = .dispatched txID env namespaces ∧
      (∀ ns ∈ remaining, ns ∈ namespaces) ∧
      ∀ ns, recorded ns ↔ ns ∈ namespaces ∧ ns ∉ remaining
  nodup : remaining.Nodup
  passes : ∀ ns, recorded ns → Passes v block i ns

def StageProgress : Stage → Prop
  | .waiting => ∀ ns, ¬ recorded ns
  | .done result => Ends v block i recorded result
  | stage => InLoop v block i recorded stage.remaining

end

/-! ## The invariant -/

def StageFaithful : Stage → Prop
  | .preparing ns _ ccEP _ => v.getInfoForValidate ns = .ok ccEP
  | .evaluating job keys checker => OnTrack v block i job keys checker
  | .awaiting job key deps keys checker =>
    OnTrack v block i job (key :: keys) checker ∧ Covers v block i job key deps
  | .blocked job key dep deps keys checker =>
    OnTrack v block i job (key :: keys) checker ∧ Covers v block i job key (dep :: deps)
  | _ => True

structure StageInvariant (stage : Stage) : Prop where
  faithful : StageFaithful v block i stage
  extracted : state.crashed = false → ExtractedFor state i stage
  progress : StageProgress v block i (state.recorded i) stage

structure Tracked : Prop where
  stages : ∀ i, StageInvariant v block state i (state.stage i)
  results : ∀ {i ns result}, state.results i ns = some result →
    ∃ ccEP, v.getInfoForValidate ns = .ok ccEP ∧ result = verdict v block ns ccEP i
  registered : ∀ {key j}, (key, j) ∈ state.depsByLedgerKeyID → key ∈ depKeys v block j
  complete : ∀ {j}, state.inserted j = true → ∀ key ∈ depKeys v block j,
    (key, j) ∈ state.depsByLedgerKeyID
  inserted_iff : ∀ j, state.inserted j = true ↔ state.extracted j = true ∧ Inserts v block j
  panics : ∀ j, state.extracted j = true → ¬ Panics v block j

def afterResult (rest : List GoString) : NsResult → Stage
  | .error err => .done (failedResult err)
  | .ok () => .choosing rest

section Tracking

variable {v block b} {s s' : State} {i : ℕ}

@[simp] theorem setStage_stage_self (stage : Stage) : (s.setStage i stage).stage i = stage := by
  simp [State.setStage]

@[simp] theorem setStage_setStage (first second : Stage) :
    (s.setStage i first).setStage i second = s.setStage i second := by
  simp [State.setStage]

variable {stage : Stage}

theorem setStage_eq_self (hat : s.stage i = stage) : s.setStage i stage = s := by
  subst hat
  simp [State.setStage]

theorem post_stage_self (ns : GoString) (rest : List GoString) (result : NsResult) :
    (s.post i ns rest result).stage i = afterResult rest result := by
  cases result <;> simp [State.post, afterResult]

variable {ns : GoString} {ccEP : Bytes} {keys : List LedgerKeyID} {chk : PolicyCheckerV20}

theorem ExtractedFor.mono (hmn : ∀ l, s.extracted l = true → s'.extracted l = true)
    (hst : ExtractedFor s i stage) : ExtractedFor s' i stage := by
  cases stage with
  | preparing =>
    exact ⟨hst.1, fun j hc hj => hmn j (hst.2 j hc hj)⟩
  | evaluating | awaiting | blocked => exact fun j hj => hmn j (hst j hj)
  | waiting | choosing | done => trivial

variable {key : LedgerKeyID} {deps : List ℕ}

theorem StageInvariant.mono (hcr : s'.crashed = false → s.crashed = false)
    (hex : ∀ l, s.extracted l = true → s'.extracted l = true) (hsl : s'.recorded i = s.recorded i)
    (hst : StageInvariant v b s i stage) : StageInvariant v b s' i stage where
  faithful := hst.faithful
  extracted halive := (hst.extracted (hcr halive)).mono hex
  progress := hsl ▸ hst.progress

theorem Tracked.initial : Tracked v b .initial where
  stages i := ⟨trivial, fun _ => trivial,
    fun ns hrec => absurd hrec (by simp [State.recorded, State.initial])⟩
  results hres := by cases hres
  registered hmem := by cases hmem
  complete hins := by cases hins
  inserted_iff j := by simp [State.initial]
  panics j hextr := by cases hextr

theorem Tracked.crash (hs : Tracked v b s) : Tracked v b { s with crashed := true } :=
  { hs with
    stages := fun i =>
      ⟨(hs.stages i).faithful, fun hal => absurd hal (by simp),
        (hs.stages i).progress⟩ }

theorem Tracked.setStage (hs : Tracked v b s) (hst : StageInvariant v b s i stage) :
    Tracked v b (s.setStage i stage) :=
  { hs with
    stages := fun j => by
      by_cases heq : j = i
      · subst heq
        rw [setStage_stage_self]
        exact { hst with }
      · have hj := hs.stages j
        simp only [State.setStage, update_of_ne heq]
        exact { hj with } }

variable {rest : List GoString} {result : NsResult}

theorem post_recorded_iff {ns other : GoString} :
    (s.post i ns rest result).recorded i other ↔ other = ns ∨ s.recorded i other := by
  by_cases heq : other = ns <;> simp [State.recorded, State.post, heq]

theorem post_progress (hin : v.getInfoForValidate ns = .ok ccEP)
    (hs : result = verdict v b ns ccEP i) (hlp : InLoop v b i (s.recorded i) (ns :: rest)) :
    StageProgress v b i ((s.post i ns rest result).recorded i) (afterResult rest result) := by
  obtain ⟨⟨txID, env, nss, he, hb, hr⟩, hnodup, hps⟩ := hlp
  have hfr : ns ∉ rest := (nodup_cons.mp hnodup).1
  have hm : ns ∈ nss := hb ns mem_cons_self
  cases result with
  | ok =>
    change InLoop v b i _ rest
    refine ⟨⟨txID, env, nss, he, fun other ho =>
      hb other (mem_cons_of_mem _ ho), ?_⟩,
      (nodup_cons.mp hnodup).2, ?_⟩
    · intro other
      rw [post_recorded_iff, hr other]
      by_cases heq : other = ns
      · subst heq
        simp [hm, hfr]
      · simp [heq]
    · intro other ho
      rcases post_recorded_iff.mp ho with heq | hea
      · subst heq
        exact ⟨ccEP, hin, hs.symm⟩
      · exact hps other hea
  | error err =>
    simp only [afterResult, StageProgress, Ends, he]
    refine .failed hm (.inr ⟨ccEP, err, hin, hs.symm, rfl⟩) ?_ ?_
    · exact iff_of_true (post_recorded_iff.mpr (.inl rfl)) ⟨ccEP, hin⟩
    · intro other ho
      rcases post_recorded_iff.mp ho with heq | hea
      · exact ⟨heq ▸ hm, .inl heq⟩
      · exact ⟨((hr other).mp hea).1, .inr (hps other hea)⟩

theorem Tracked.post (hs : Tracked v b s) (hin : v.getInfoForValidate ns = .ok ccEP)
    (hr : result = verdict v b ns ccEP i) (hlp : InLoop v b i (s.recorded i) (ns :: rest)) :
    Tracked v b (s.post i ns rest result) where
  stages j := by
    by_cases heq : j = i
    · subst heq
      have hpg := post_progress hin hr hlp
      rw [post_stage_self]
      cases result <;> exact ⟨trivial, fun _ => trivial, hpg⟩
    have hos : (s.post i ns rest result).recorded j = s.recorded j := by
      funext other
      simp [State.recorded, State.post, heq]
    have hst : (s.post i ns rest result).stage j = s.stage j := by
      simp [State.post, heq]
    rw [hst]
    refine StageInvariant.mono ?_ ?_ hos (hs.stages j)
    · exact fun hal => hal
    · exact fun _ hl => hl
  results {j other value} hval := by
    by_cases heq : j = i ∧ other = ns
    · obtain ⟨rfl, rfl⟩ := heq
      simp only [State.post, update_self, Option.some.injEq] at hval
      exact ⟨ccEP, hin, hval ▸ hr⟩
    apply hs.results
    rw [← hval]
    by_cases hj : j = i
    · subst hj
      have ho : other ≠ ns := fun hns => heq ⟨rfl, hns⟩
      simp [State.post, ho]
    · simp [State.post, hj]
  registered := hs.registered
  complete := hs.complete
  inserted_iff := hs.inserted_iff
  panics := hs.panics

theorem extract_not_crashed {j : ℕ} (hcr : (s.extract v b j).crashed = false) :
    s.crashed = false := by
  unfold State.extract at hcr
  split_ifs at hcr
  · exact hcr
  · split at hcr
    · cases hcr
    · exact hcr
    · exact hcr

/-- After its `sync.Once` the dependencies of a transaction are extracted,
unless the peer has crashed. -/
theorem extract_extracted {j : ℕ} (hcr : (s.extract v b j).crashed = false) :
    (s.extract v b j).extracted j = true := by
  by_cases hex : s.extracted j = true
  · exact extract_extracted_mono hex
  simp only [State.extract, if_neg hex] at hcr ⊢
  split at hcr
  · cases hcr
  · simp
  · simp

theorem extract_recorded (j : ℕ) : (s.extract v b j).recorded = s.recorded := by
  funext l ns
  simp [State.recorded]

section Extraction

variable {j : ℕ}

theorem extract_stages (hs : Tracked v b s) (l : ℕ) :
    StageInvariant v b (s.extract v b j) l ((s.extract v b j).stage l) := by
  rw [extract_stage]
  have hrecorded : (s.extract v b j).recorded l = s.recorded l := by
    rw [extract_recorded]
  exact (hs.stages l).mono extract_not_crashed (fun _ => extract_extracted_mono) hrecorded

theorem not_inserts_of_error {text : String}
    (herror : extractDependenciesForTx v (txBytes b j) = .error (.error text)) :
    ¬ Inserts v b j := by
  rintro ⟨keys, hkeys⟩
  rw [herror] at hkeys
  cases hkeys

theorem not_panics_of_error {text : String}
    (herror : extractDependenciesForTx v (txBytes b j) = .error (.error text)) :
    ¬ Panics v b j := by
  rintro ⟨other, hpanic⟩
  rw [herror] at hpanic
  cases hpanic

theorem not_panics_of_inserts {keys : List LedgerKeyID}
    (hkeys : extractDependenciesForTx v (txBytes b j) = .ok keys) : ¬ Panics v b j := by
  rintro ⟨other, hpanic⟩
  rw [hkeys] at hpanic
  cases hpanic

/-- Only the transaction whose dependencies are extracted is new among those
that have not panicked. -/
theorem Tracked.extracted_panics (hs : Tracked v b s) (hpanics : ¬ Panics v b j) (l : ℕ)
    (hextracted : update s.extracted j true l = true) : ¬ Panics v b l := by
  by_cases heq : l = j
  · exact heq ▸ hpanics
  · rw [update_of_ne heq] at hextracted
    exact hs.panics l hextracted

/-- The dependencies of a transaction that cannot be parsed are left out. -/
theorem Tracked.extract_error (hs : Tracked v b s) (hextracted : s.extracted j ≠ true)
    {text : String} (herror : extractDependenciesForTx v (txBytes b j) = .error (.error text)) :
    Tracked v b (s.extract v b j) := by
  have hstages : ∀ l, StageInvariant v b (s.extract v b j) l ((s.extract v b j).stage l) :=
    extract_stages hs
  have hinserted : ∀ l, s.inserted l = true ↔
      update s.extracted j true l = true ∧ Inserts v b l := by
    intro l
    by_cases heq : l = j
    · subst heq
      simp [hs.inserted_iff l, not_inserts_of_error herror]
    · simpa [heq] using hs.inserted_iff l
  simp only [State.extract, if_neg hextracted, herror] at hstages ⊢
  exact
    { hs with
      stages := hstages
      inserted_iff := hinserted
      panics := hs.extracted_panics (not_panics_of_error herror) }

theorem Tracked.extract_ok (hs : Tracked v b s) (hextracted : s.extracted j ≠ true)
    {keys : List LedgerKeyID} (hkeys : extractDependenciesForTx v (txBytes b j) = .ok keys) :
    Tracked v b (s.extract v b j) := by
  have hstages : ∀ l, StageInvariant v b (s.extract v b j) l ((s.extract v b j).stage l) :=
    extract_stages hs
  have hdeps : depKeys v b j = keys := by
    unfold depKeys
    rw [hkeys]
  simp only [State.extract, if_neg hextracted, hkeys] at hstages ⊢
  refine
    { hs with
      stages := hstages
      registered := ?_
      complete := ?_
      inserted_iff := ?_
      panics := hs.extracted_panics (not_panics_of_inserts hkeys) }
  · intro _ _ hentry
    rcases mem_append.mp hentry with hearlier | hnew
    · exact hs.registered hearlier
    · obtain ⟨_, hkey, heq⟩ := mem_map.mp hnew
      cases heq
      rw [hdeps]
      exact hkey
  · intro tx hinserted key hkey
    rw [mem_append]
    by_cases heq : tx = j
    · subst heq
      exact .inr (mem_map.mpr ⟨key, hdeps ▸ hkey, rfl⟩)
    · simp only [update_of_ne heq] at hinserted
      exact .inl (hs.complete hinserted key hkey)
  · intro l
    by_cases heq : l = j
    · subst heq
      simp [Inserts, hkeys]
    · simpa [heq] using hs.inserted_iff l

theorem Tracked.extract (hs : Tracked v b s) (j : ℕ) : Tracked v b (s.extract v b j) := by
  by_cases hextracted : s.extracted j = true
  · unfold State.extract
    rw [if_pos hextracted]
    exact hs
  cases hkeys : extractDependenciesForTx v (txBytes b j) with
  | ok keys => exact hs.extract_ok hextracted hkeys
  | error failure =>
    cases failure with
    | error text => exact hs.extract_error hextracted hkeys
    | panic text =>
      unfold State.extract
      rw [if_neg hextracted, hkeys]
      exact hs.crash

end Extraction

theorem Tracked.mem_dependencies (hs : Tracked v b s) {key : LedgerKeyID}
    (hinserted : (List.range i).all s.inserted = true) {j : ℕ} (hj : j < i)
    (hkey : key ∈ depKeys v b j) : j ∈ s.dependenciesForTxnum key i := by
  simp only [all_eq_true, mem_range] at hinserted
  simp only [State.dependenciesForTxnum, mem_dedup, mem_map, mem_filter, decide_eq_true_eq]
  exact ⟨(key, j), ⟨hs.complete (hinserted j hj) key hkey, rfl, hj⟩, rfl⟩

theorem Tracked.dependencies (hs : Tracked v b s) (job : Job) (key : LedgerKeyID)
    (hinserted : (List.range i).all s.inserted = true) :
    Covers v b i job key (s.dependenciesForTxnum key i) := by
  refine ⟨?_, fun j hj hkey _ => hs.mem_dependencies hinserted hj hkey⟩
  intro _ hdep
  simp only [State.dependenciesForTxnum, mem_dedup, mem_map, mem_filter, decide_eq_true_eq] at hdep
  obtain ⟨_, ⟨hentry, hkey, hlt⟩, heq⟩ := hdep
  subst hkey heq
  exact ⟨hlt, hs.registered hentry⟩

theorem Tracked.unpack (hs : Tracked v b s) (hcr : s.crashed = false)
    (hat : s.stage i = .preparing ns rest ccEP 0) : Tracked v b (s.unpack v b i ns rest ccEP) := by
  have hst := hs.stages i
  rw [hat] at hst
  have hin := hst.faithful
  have hex := hst.extracted hcr
  have hlp := hst.progress
  have hvr := verdict_eq v b ns ccEP i
  unfold nsEvaluation at hvr
  unfold State.unpack
  cases har : extractValidationArtifacts v (txBytes b i) with
  | error failure =>
    rw [har] at hvr
    cases failure with
    | panic => exact hs.crash
    | error => exact hs.post hin hvr.symm hlp
  | ok va =>
    rw [har] at hvr
    simp only at hvr ⊢
    cases hrw : v.codec.txRwSetFromProtoBytes va.rwset with
    | error =>
      rw [hrw] at hvr
      exact hs.post hin hvr.symm hlp
    | ok rws =>
      rw [hrw] at hvr
      exact hs.setStage ⟨⟨hin, hvr, .start har hrw⟩, fun _ j hj => hex.2 j (Nat.zero_le j) hj, hlp⟩

theorem Tracked.refuse (hs : Tracked v b s) (hat : s.stage i = .choosing rest)
    (hm : ns ∈ rest) {err : InfoError} (hin : v.getInfoForValidate ns = .error err) :
    Tracked v b (s.setStage i (.done (infoResult err))) := by
  have hpg := (hs.stages i).progress
  rw [hat] at hpg
  obtain ⟨⟨_, _, _, he, hb, hr⟩, -, hps⟩ := hpg
  refine hs.setStage ⟨trivial, fun _ => trivial, ?_⟩
  simp only [StageProgress, Ends, he]
  refine .failed (hb ns hm) (.inl ⟨err, hin, rfl⟩) ?_ ?_
  · refine iff_of_false ?_ ?_
    · intro hsl
      exact ((hr ns).mp hsl).2 hm
    · rintro ⟨_, hcp⟩
      rw [hin] at hcp
      cases hcp
  · intro other ho
    exact ⟨((hr other).mp ho).1, .inr (hps other ho)⟩

theorem Tracked.choose (hs : Tracked v b s) (hat : s.stage i = .choosing rest)
    (hm : ns ∈ rest) (hin : v.getInfoForValidate ns = .ok ccEP) :
    Tracked v b (s.setStage i (.preparing ns (rest.erase ns) ccEP (i + 1))) := by
  have hpg := (hs.stages i).progress
  rw [hat] at hpg
  obtain ⟨⟨txID, env, nss, he, hb, hr⟩, hnodup, hpass⟩ := hpg
  refine hs.setStage ⟨hin, ?_, ?_⟩
  · exact fun _ => ⟨le_rfl, fun j hc hj => by omega⟩
  have hpr := perm_cons_erase hm
  refine ⟨⟨txID, env, nss, he, ?_, ?_⟩, hpr.nodup_iff.mp hnodup, hpass⟩
  · intro other ho
    exact hb other (hpr.mem_iff.mpr ho)
  · intro other
    rw [hr other]
    exact and_congr_right fun _ => not_congr hpr.mem_iff

theorem Tracked.dispatched_of_choosing (hs : Tracked v b s) (hat : s.stage i = .choosing rest) :
    ∃ txID env namespaces, validateTx v (txBytes b i) = .dispatched txID env namespaces := by
  have hprogress := (hs.stages i).progress
  rw [hat] at hprogress
  obtain ⟨⟨txID, env, namespaces, hentry, -⟩, -, -⟩ := hprogress
  exact ⟨txID, env, namespaces, hentry⟩

theorem Tracked.finish (hs : Tracked v b s) (hat : s.stage i = .choosing [])
    {txID : GoString} {env : Envelope} {namespaces : List GoString}
    (hentry : validateTx v (txBytes b i) = .dispatched txID env namespaces) :
    Tracked v b (s.setStage i (.done (lastResult v env txID))) := by
  have hprogress := (hs.stages i).progress
  rw [hat] at hprogress
  obtain ⟨⟨_, _, _, hentry', -, hrecorded⟩, -, hpasses⟩ := hprogress
  rw [hentry] at hentry'
  cases hentry'
  have hall : ∀ ns, s.recorded i ns ↔ ns ∈ namespaces := by
    intro ns
    rw [hrecorded ns]
    simp [Stage.remaining]
  refine hs.setStage ⟨trivial, fun _ => trivial, ?_⟩
  simp only [StageProgress, Ends, hentry]
  exact .passed (fun ns hns => hpasses ns ((hall ns).mpr hns)) hall

theorem Tracked.prepare (hs : Tracked v b s) (hcr : s.crashed = false) {count : ℕ}
    (hat : s.stage i = .preparing ns rest ccEP (count + 1)) :
    Tracked v b ((s.extract v b count).setStage i (.preparing ns rest ccEP count)) := by
  obtain ⟨hfaithful, hextracted, hprogress⟩ := hs.stages i
  replace hextracted := hextracted hcr
  rw [hat] at hfaithful hextracted hprogress
  refine (hs.extract count).setStage ⟨hfaithful, ?_, ?_⟩
  · intro halive
    refine ⟨Nat.le_of_succ_le hextracted.1, ?_⟩
    intro j hle hj
    rcases Nat.eq_or_lt_of_le hle with heq | hlt
    · subst heq
      exact extract_extracted halive
    · exact extract_extracted_mono (hextracted.2 j hlt hj)
  · rw [extract_recorded]
    exact hprogress

section Waiting

variable {job : Job} {keys : List LedgerKeyID} {chk : PolicyCheckerV20} {key : LedgerKeyID}
  {deps : List ℕ} {dep : ℕ}

theorem Tracked.record (hs : Tracked v b s) (hat : s.stage i = .evaluating job [] chk) :
    Tracked v b (s.post i job.ns job.rest
      (evaluateFrom v.support (v.blockNumber, i) job.ccEP job.sd job.ns (fun _ => false) [] chk)) := by
  obtain ⟨hfaithful, -, hprogress⟩ := hs.stages i
  rw [hat] at hfaithful hprogress
  exact hs.post hfaithful.1 hfaithful.2.1.symm hprogress

theorem Tracked.await (hs : Tracked v b s) (hcr : s.crashed = false)
    (hat : s.stage i = .evaluating job (key :: keys) chk)
    (hinserted : (List.range i).all s.inserted = true) :
    Tracked v b (s.setStage i (.awaiting job key (s.dependenciesForTxnum key i) keys chk)) := by
  obtain ⟨hfaithful, hextracted, hprogress⟩ := hs.stages i
  rw [hat] at hfaithful hextracted hprogress
  exact hs.setStage
    ⟨⟨hfaithful, hs.dependencies job key hinserted⟩, fun _ => hextracted hcr, hprogress⟩

theorem Tracked.waitFor (hs : Tracked v b s) (hcr : s.crashed = false)
    (hat : s.stage i = .awaiting job key deps keys chk) (hdep : dep ∈ deps) :
    Tracked v b (s.setStage i (.blocked job key dep (deps.erase dep) keys chk)) := by
  obtain ⟨hfaithful, hextracted, hprogress⟩ := hs.stages i
  rw [hat] at hfaithful hextracted hprogress
  exact hs.setStage ⟨⟨hfaithful.1, hfaithful.2.pick hdep⟩, fun _ => hextracted hcr, hprogress⟩

theorem Tracked.check_error (hs : Tracked v b s)
    (hat : s.stage i = .awaiting job key [] keys chk) {err : TxValidationError}
    (hcheck : checkSBAndCCEP v.support (v.blockNumber, i) job.ccEP job.sd key
      (readValidationParameter v.support key) chk = .error err) :
    Tracked v b (s.post i job.ns job.rest (.error err)) := by
  obtain ⟨hfaithful, -, hprogress⟩ := hs.stages i
  rw [hat] at hfaithful hprogress
  exact hs.post hfaithful.1.1 (hfaithful.1.fails hfaithful.2.not_updated hcheck) hprogress

theorem Tracked.check (hs : Tracked v b s) (hcr : s.crashed = false)
    (hat : s.stage i = .awaiting job key [] keys chk) {next : PolicyCheckerV20}
    (hcheck : checkSBAndCCEP v.support (v.blockNumber, i) job.ccEP job.sd key
      (readValidationParameter v.support key) chk = .ok next) :
    Tracked v b (s.setStage i (.evaluating job keys next)) := by
  obtain ⟨hfaithful, hextracted, hprogress⟩ := hs.stages i
  rw [hat] at hfaithful hextracted hprogress
  exact hs.setStage
    ⟨hfaithful.1.passes hfaithful.2.not_updated hcheck, fun _ => hextracted hcr, hprogress⟩

theorem Tracked.drop (hs : Tracked v b s) (hcr : s.crashed = false)
    (hat : s.stage i = .blocked job key dep deps keys chk) {err : TxValidationError}
    (hresult : s.results dep job.ns = some (.error err)) :
    Tracked v b (s.setStage i (.awaiting job key deps keys chk)) := by
  obtain ⟨hfaithful, hextracted, hprogress⟩ := hs.stages i
  rw [hat] at hfaithful hextracted hprogress
  obtain ⟨_, hinfo, hverdict⟩ := hs.results hresult
  rw [hfaithful.1.1] at hinfo
  cases hinfo
  refine hs.setStage ⟨⟨hfaithful.1, hfaithful.2.drop ?_⟩, fun _ => hextracted hcr, hprogress⟩
  rw [← hverdict]
  simp

/-- The validation parameter has been updated by a transaction of the block. -/
theorem Tracked.updated (hs : Tracked v b s) (hat : s.stage i = .blocked job key dep deps keys chk)
    {err : TxValidationError} (hresult : s.results dep job.ns = some (.ok ()))
    (hcheck : checkSBAndCCEP v.support (v.blockNumber, i) job.ccEP job.sd key
      (.error .updated) chk = .error err) :
    Tracked v b (s.post i job.ns job.rest (.error err)) := by
  obtain ⟨hfaithful, -, hprogress⟩ := hs.stages i
  rw [hat] at hfaithful hprogress
  obtain ⟨_, hinfo, hverdict⟩ := hs.results hresult
  rw [hfaithful.1.1] at hinfo
  cases hinfo
  have hfails := hfaithful.1.fails (hfaithful.2.updated hverdict.symm) hcheck
  exact hs.post hfaithful.1.1 hfails hprogress

end Waiting

theorem Tracked.move (hs : Tracked v b s) (hcr : s.crashed = false) (ch : ℕ) :
    Tracked v b (s.move v b i ch) := by
  unfold State.move
  split
  case h_1 => exact hs
  case h_2 hat =>
    obtain ⟨_, _, _, hentry⟩ := hs.dispatched_of_choosing hat
    rw [hentry]
    exact hs.finish hat hentry
  case h_3 hat =>
    split
    · exact hs
    next hns =>
      have hmem := mem_of_getElem? hns
      split
      next hinfo => exact hs.refuse hat hmem hinfo
      next hinfo => exact hs.choose hat hmem hinfo
  case h_4 hat => exact hs.prepare hcr hat
  case h_5 hat => exact hs.unpack hcr hat
  case h_6 hat => exact hs.record hat
  case h_7 hat =>
    split_ifs with hinserted
    · exact hs.await hcr hat hinserted
    · exact hs
  case h_8 hat =>
    split
    · exact hs
    next hdep => exact hs.waitFor hcr hat (mem_of_getElem? hdep)
  case h_9 hat =>
    split
    next hcheck => exact hs.check_error hat hcheck
    next hcheck => exact hs.check hcr hat hcheck
  case h_10 hat =>
    split
    · exact hs
    next hresult => exact hs.drop hcr hat hresult
    next hresult =>
      split
      next hcheck => exact hs.updated hat hresult hcheck
      · exact hs
  case h_11 => exact hs

theorem move_waiting (ch : ℕ) (hat : s.stage i = .waiting) : s.move v b i ch = s := by
  simp only [State.move, hat]

theorem post_not_waiting (ns : GoString) (rest : List GoString)
    (result : NsResult) : (s.post i ns rest result).stage i ≠ .waiting := by
  rw [post_stage_self]
  cases result <;> simp [afterResult]

theorem Change.not_waiting (hchg : Change v b i s s')
    (hat : s.stage i ≠ .waiting) : s'.stage i ≠ .waiting := by
  cases hchg with
  | nothing => exact hat
  | stage _ hnx =>
    rw [setStage_stage_self]
    exact hnx
  | extract => simp
  | crash => exact hat
  | post ns rest result => exact post_not_waiting ns rest result

structure Begun (block : List Bytes) (state : State) : Prop where
  bound : state.started ≤ block.length
  iff : ∀ j, state.stage j = .waiting ↔ state.started ≤ j

theorem Begun.move (hs : Begun b s) (ch : ℕ) : Begun b (s.move v b i ch) := by
  have hchg : Change v b i s (s.move v b i ch) := move_change ch
  refine ⟨hchg.started_eq ▸ hs.bound, ?_⟩
  intro j
  rw [hchg.started_eq, ← hs.iff j]
  by_cases heq : j = i
  · subst heq
    by_cases hat : s.stage j = .waiting
    · rw [move_waiting ch hat]
    · exact iff_of_false (hchg.not_waiting hat) hat
  · rw [hchg.stage_eq heq]

def firstStage (v : Validator) (block : List Bytes) (i : ℕ) : Stage :=
  match validateTx v (txBytes block i) with
  | .finished result => .done result
  | .dispatched _ _ namespaces => .choosing namespaces

theorem firstStage_not_waiting : firstStage v b i ≠ .waiting := by
  unfold firstStage
  split <;> simp

theorem Begun.start (hs : Begun b s) (ws : ℕ) : Begun b (s.start v b ws) := by
  unfold State.start
  split_ifs with hsr
  · refine ⟨hsr.1, ?_⟩
    intro j
    by_cases heq : j = s.started
    · subst heq
      simp only [update_self]
      exact iff_of_false firstStage_not_waiting (by omega)
    · simp only [update_of_ne heq]
      rw [hs.iff j]
      omega
  · exact hs

theorem Begun.initial : Begun b .initial where
  bound := Nat.zero_le _
  iff j := by simp [State.initial]

theorem firstStage_progress {recorded : GoString → Prop} (hr : ∀ ns, ¬ recorded ns) :
    StageProgress v b i recorded (firstStage v b i) := by
  unfold firstStage
  split
  next he =>
    simp only [StageProgress, Ends, he]
    exact ⟨trivial, hr⟩
  rename_i txID env nss he
  obtain ⟨_, htx⟩ := validateTx_dispatched he
  refine ⟨⟨txID, env, nss, he, fun _ hns => hns, ?_⟩, htx.nodup, fun ns hns => absurd hns (hr ns)⟩
  intro ns
  exact iff_of_false (hr ns) fun hbo => hbo.2 hbo.1

theorem firstStage_invariant {s : State} (hr : ∀ ns, ¬ s.recorded i ns) :
    StageInvariant v b s i (firstStage v b i) := by
  have hpg : StageProgress v b i (s.recorded i) (firstStage v b i) := firstStage_progress hr
  unfold firstStage at hpg ⊢
  split at hpg <;>
    exact ⟨trivial, fun _ => trivial, hpg⟩

theorem Tracked.start (hs : Tracked v b s) (hbg : Begun b s) (ws : ℕ) :
    Tracked v b (s.start v b ws) := by
  have hpg := (hs.stages s.started).progress
  rw [(hbg.iff s.started).mpr le_rfl] at hpg
  have hnx := hs.setStage (firstStage_invariant hpg)
  unfold State.start
  split_ifs
  · exact
      { hnx with
        stages := fun j =>
          ⟨(hnx.stages j).faithful, (hnx.stages j).extracted, (hnx.stages j).progress⟩ }
  · exact hs

theorem step_tracked {ws : ℕ} {ev : Event} (hs : Tracked v b s) (hbg : Begun b s) :
    Tracked v b (s.step v b ws ev) ∧ Begun b (s.step v b ws ev) := by
  unfold State.step
  split_ifs with hcr
  · exact ⟨hs, hbg⟩
  cases ev with
  | start => exact ⟨hs.start hbg ws, hbg.start ws⟩
  | move _ ch => exact ⟨hs.move (by simpa using hcr) ch, hbg.move ch⟩

theorem run_tracked (v : Validator) (b : List Bytes) (ws : ℕ) (evs : List Event) :
    Tracked v b (run v b ws evs) ∧ Begun b (run v b ws evs) := by
  induction evs using List.reverseRecOn with
  | nil => exact ⟨Tracked.initial, Begun.initial⟩
  | append_singleton _ _ ih =>
    unfold run at ih ⊢
    rw [foldl_append]
    exact step_tracked ih.1 ih.2

end Tracking

/-- What the validation of a transaction for a namespace ensures about a key
that it writes. -/
structure KeyEndorsed (ns : GoString) (k : ℕ) (ccEP : Bytes)
    (sd : List SignedData) (written : WrittenKey) : Prop where
  endorsed : Endorsed v.support ccEP sd ns written
  not_updated : ∀ j < k, ∀ workers events,
    (run v block workers events).results j ns = some (.ok ()) →
      written.ledgerKeyID ns ∉ depKeys v block j

/-- Whatever the schedule, a transaction whose validation for a namespace has
succeeded is endorsed for every key that it writes there, apart from those of a
collection without a name, and some policy has accepted its endorsements. -/
theorem validated_keyEndorsed {workers : ℕ} {events : List Event} {k : ℕ}
    {ns : GoString} (hok : (run v block workers events).results k ns = some (.ok ())) :
    ∃ ccEP va rwset, v.getInfoForValidate ns = .ok ccEP ∧
      extractValidationArtifacts v (txBytes block k) = .ok va ∧
      v.codec.txRwSetFromProtoBytes va.rwset = .ok rwset ∧
      (∀ written ∈ writtenKeys rwset ns, written.Named →
        KeyEndorsed v block ns k ccEP (signatureSet va.prp va.endorsements) written) ∧
      SomePolicyAccepted v.support ccEP (signatureSet va.prp va.endorsements) ns := by
  obtain ⟨ccEP, hin, hvr⟩ := (run_tracked v block workers events).1.results hok
  obtain ⟨va, rwset, har, hrw, hky, hsm⟩ := verdict_sound v block hvr.symm
  refine ⟨ccEP, va, rwset, hin, har, hrw, ?_, hsm⟩
  intro written hwr hnm
  obtain ⟨heo, hu⟩ := hky written hwr
  rw [seen_of_named hnm] at heo
  refine ⟨heo, ?_⟩
  intro j hj others other hsc hk
  obtain ⟨_, hpol, hea⟩ := (run_tracked v block others other).1.results hsc
  rw [hin] at hpol
  cases hpol
  exact (updatedBefore_eq_false_iff v block).mp hu j hj hk hea.symm

/-! ## A collection without a name

Transactions are told apart by the single byte of their data, and the policy
`[1]` is the only one that accepts.  It is the validation parameter of the
public key `[107]`. -/

def sampleTx (byte : Byte) : Bytes := [10, 9, 10, 4, 10, 2, 8, 3, 18, 1, byte]

variable (rwsets : Bytes → Except String TxRwSet)

def sampleCodec : Codec where
  channelHeaderExtension _ := []
  unmarshalChaincodeHeaderExtension _ := .ok (some [110])
  unmarshalTransaction data := .ok [data]
  unmarshalChaincodeActionPayload action := .ok (some ⟨some action, [⟨[], []⟩]⟩)
  unmarshalProposalResponsePayload response := .ok (some response)
  unmarshalChaincodeAction extension := .ok ⟨extension, none, some ⟨[110], [49]⟩⟩
  unmarshalChaincodeEvent event := .ok event
  txRwSetFromProtoBytes := rwsets

def sampleSupport : Support SignedData where
  state :=
    { metadata := fun _ key => if key = [107] then [1] else []
      hashedMetadata := fun _ _ _ => []
      collections := fun _ => none }
  readFailure _ := none
  applicationPolicy parameter :=
    if parameter = [] then .error "empty" else .ok parameter
  applicationPolicy_ne {parameter policy} hpolicy := by
    split_ifs at hpolicy with hempty
    cases hpolicy
    exact hempty
  collectionValidationInfo _ _ := .ok []
  evaluate policy _ := if policy = [1] then .ok () else .error "refused"

def sampleValidator (info : GoString → Except InfoError Bytes) : Validator where
  codec := sampleCodec rwsets
  support := sampleSupport
  blockNumber := 1
  checkTransaction _ _ _ := none
  chainExists _ := true
  txIDExists _ := .ok false
  applyConfig _ := .ok ()
  marshal _ := .ok ()
  getInfoForValidate := info

/-- The first transaction sets the validation parameter of a key, and the
second one writes another. -/
def settingValidator : Validator :=
  sampleValidator
    (fun data => .ok ⟨[if data = [1] then ⟨[110], ⟨[], [], [], [⟨[108], [⟨[118], [1]⟩]⟩]⟩, []⟩
      else ⟨[110], ⟨[], [], [⟨[107], false, [1]⟩], []⟩, []⟩]⟩)
    fun _ => .ok [1]

def settingEvents : List Event :=
  .start :: .start :: List.replicate 6 (.move 0 0) ++ List.replicate 7 (.move 1 0)

theorem setting_run_keyEndorsed :
    (run settingValidator [sampleTx 1, sampleTx 2] 2 settingEvents).results 0 [110] =
        some (.ok ()) ∧
      ∃ ccEP va rwset, settingValidator.getInfoForValidate [110] = .ok ccEP ∧
        extractValidationArtifacts settingValidator (txBytes [sampleTx 1, sampleTx 2] 1) = .ok va ∧
        settingValidator.codec.txRwSetFromProtoBytes va.rwset = .ok rwset ∧
        (∀ written ∈ writtenKeys rwset [110], written.Named →
          KeyEndorsed settingValidator [sampleTx 1, sampleTx 2] [110] 1 ccEP
            (signatureSet va.prp va.endorsements) written) ∧
        SomePolicyAccepted settingValidator.support ccEP
          (signatureSet va.prp va.endorsements) [110] := by
  have hok : (run settingValidator [sampleTx 1, sampleTx 2] 2 settingEvents).results 1 [110] =
      some (.ok ()) := rfl
  exact ⟨rfl, validated_keyEndorsed settingValidator [sampleTx 1, sampleTx 2] hok⟩

/-- A write of the public key, and one of the same bytes as a key hash. -/
def unnamedRwset : TxRwSet where
  nsRwSets :=
    [{ nameSpace := [110]
       kvRwSet := ⟨[], [], [⟨[107], false, [1]⟩], []⟩
       collHashedRwSets := [⟨[], ⟨[], [⟨[107], false, [1], false⟩], []⟩, none⟩] }]

def unnamedValidator : Validator := sampleValidator (fun _ => .ok unnamedRwset) fun _ => .ok [2]

def unnamedEvents : List Event := .start :: List.replicate 8 (.move 0 0)

theorem unnamed_run_result :
    (run unnamedValidator [sampleTx 1] 1 unnamedEvents).results 0 [110] = some (.ok ()) := by
  rfl

/-- The write in the collection without a name is accepted by the parameter of
the public key; the policy of the chaincode, which is the one that has to
accept it, refuses. -/
theorem unnamed_run_not_endorsed :
    (run unnamedValidator [sampleTx 1] 1 unnamedEvents).results 0 [110] = some (.ok ()) ∧
      unnamedValidator.getInfoForValidate [110] = .ok [2] ∧
      extractValidationArtifacts unnamedValidator (txBytes [sampleTx 1] 0) =
        .ok ⟨[1], [1], [⟨[], []⟩]⟩ ∧
      unnamedValidator.codec.txRwSetFromProtoBytes [1] = .ok unnamedRwset ∧
      .hashed [] [107] ∈ writtenKeys unnamedRwset [110] ∧
      ¬ Endorsed unnamedValidator.support [2]
        (signatureSet [1] [⟨[], []⟩]) [110] (.hashed [] [107]) := by
  refine ⟨unnamed_run_result, rfl, rfl, rfl, by decide, ?_⟩
  intro heo
  obtain ⟨_, hin, ha⟩ := heo.2 rfl
  cases hin
  cases ha

end FabricSequencer.TxValidator
