import FabricSequencer.ValidationTracking
import Mathlib.Data.Prod.Lex
import Mathlib.Logic.Relation

/-!
# Waiting in vain

A worker waits until the dependencies of all transactions before its own are
inserted, and then for the results of those that it depends on.  A transaction
that cannot be decoded has no dependencies inserted, and one that is refused
before its worker comes to a namespace has no result there.
-/

namespace FabricSequencer.TxValidator

open Protoutil Framing Statebased List Function State Prod.Lex Stage

variable (v : Validator) (block b : List Bytes)

/-! ## Moving one worker while the others rest -/

def Reachable (workers : ℕ) (state : State) : Prop := ∃ events, run v block workers events = state

def Leads (workers : ℕ) (state state' : State) : Prop :=
  ∃ more : List Event, more.foldl (State.step v block workers) state = state'

/-- The state is reached by moves of worker `i` alone. -/
def Moves (i : ℕ) : State → State → Prop :=
  Relation.ReflTransGen fun state next =>
    state.crashed = false ∧ ∃ choice, next = state.move v block i choice

section Moves

variable {v block b} {ws : ℕ} {s s' : State} {i : ℕ}

theorem Reachable.tracked (hrc : Reachable v b ws s) : Tracked v b s ∧ Begun b s := by
  obtain ⟨evs, hs⟩ := hrc
  exact hs ▸ run_tracked v b ws evs

theorem Reachable.leads (hrc : Reachable v b ws s) (hld : Leads v b ws s s') :
    Reachable v b ws s' := by
  obtain ⟨evs, hs⟩ := hrc
  obtain ⟨more, hmr⟩ := hld
  refine ⟨evs ++ more, ?_⟩
  rw [← hmr, ← hs]
  unfold run
  rw [foldl_append]

theorem Leads.trans {last : State} (hf : Leads v b ws s s') (hrs : Leads v b ws s' last) :
    Leads v b ws s last := by
  obtain ⟨more, hmr⟩ := hf
  obtain ⟨others, hos⟩ := hrs
  exact ⟨more ++ others, by rw [foldl_append, hmr, hos]⟩

theorem Moves.of_move {ch : ℕ} (hmv : s.move v b i ch = s')
    (hcr : s.crashed = false) : Moves v b i s s' :=
  .single ⟨hcr, ch, hmv.symm⟩

theorem Moves.trans {last : State} (hf : Moves v b i s s')
    (hrs : Moves v b i s' last) : Moves v b i s last :=
  Relation.ReflTransGen.trans hf hrs

theorem Moves.leads (hmv : Moves v b i s s') (ws : ℕ) : Leads v b ws s s' := by
  induction hmv with
  | refl => exact ⟨[], rfl⟩
  | tail _ hmo ih =>
    obtain ⟨hcr, ch, hnx⟩ := hmo
    exact ih.trans ⟨[.move i ch], by simp [State.step, hcr, hnx]⟩

theorem Reachable.moves (hrc : Reachable v b ws s) (hmv : Moves v b i s s') : Reachable v b ws s' :=
  hrc.leads (hmv.leads ws)

theorem step_start {count : ℕ} (hcr : s.crashed = false)
    (hs : s.started = count) (hc : count < b.length) (hfr : ((List.range count).filter fun l =>
      !(s.stage l).isDone).length < ws) :
    s.step v b ws .start =
      { s with
        started := count + 1
        stage := Function.update s.stage count (firstStage v b count) } := by
  simp only [State.step, hcr, Bool.false_eq_true, if_false, start, hs]
  rw [if_pos ⟨hc, hfr⟩]
  rfl

structure Untouched (i : ℕ) (state state' : State) : Prop where
  started : state'.started = state.started
  stage : ∀ l, l ≠ i → state'.stage l = state.stage l
  results : ∀ l, l ≠ i → state'.results l = state.results l

theorem Moves.untouched (hmv : Moves v b i s s') : Untouched i s s' := by
  induction hmv with
  | refl => exact ⟨rfl, fun _ _ => rfl, fun _ _ => rfl⟩
  | @tail md last _ hmo ih =>
    obtain ⟨-, ch, hnx⟩ := hmo
    have hc : Change v b i md last := hnx ▸ move_change ch
    exact ⟨hc.started_eq.trans ih.started, fun l hl => (hc.stage_eq hl).trans (ih.stage l hl),
      fun l hl => (hc.results_eq hl).trans (ih.results l hl)⟩

end Moves

/-! ## The evaluation of a namespace -/

open Moves

section Evaluation

variable {v block b} {s : State} {i : ℕ} {job : Job} {key : LedgerKeyID} {deps : List ℕ}
  {keys : List LedgerKeyID} {chk : PolicyCheckerV20} {dep : ℕ}

section

variable (hcr : s.crashed = false) (hat : s.stage i = .awaiting job key deps keys chk)

include hcr hat

theorem moves_to_blocked (hd : dep ∈ deps) :
    Moves v b i s (s.setStage i (.blocked job key dep (deps.erase dep) keys chk)) := by
  obtain ⟨ch, hc⟩ := mem_iff_getElem?.mp hd
  obtain ⟨first, others, hdp⟩ := exists_cons_of_ne_nil (ne_nil_of_mem hd)
  subst hdp
  have hmv : s.move v b i ch = s.setStage i
      (.blocked job key dep ((first :: others).erase dep) keys chk) := by
    simp only [move, hat]
    rw [hc]
  exact of_move hmv hcr

theorem moves_past_failed (hdp : ∀ dep ∈ deps, ∃ err, s.results dep job.ns = some (.error err)) :
    Moves v b i s (s.setStage i (.awaiting job key [] keys chk)) := by
  induction deps generalizing s with
  | nil =>
    rw [setStage_eq_self hat]
    exact .refl
  | cons dep deps ih =>
    obtain ⟨_, hr⟩ := hdp dep mem_cons_self
    have hpc : Moves v b i s _ := moves_to_blocked hcr hat mem_cons_self
    rw [erase_cons_head] at hpc
    have hps : (s.setStage i (.blocked job key dep deps keys chk)).move v b i 0 =
        s.setStage i (.awaiting job key deps keys chk) := by
      simp only [move, setStage_stage_self]
      rw [show (s.setStage i (.blocked job key dep deps keys chk)).results = s.results from rfl, hr]
      simp
    have hrs : Moves v b i (s.setStage i (.awaiting job key deps keys chk))
        ((s.setStage i (.awaiting job key deps keys chk)).setStage i
          (.awaiting job key [] keys chk)) :=
      ih hcr (setStage_stage_self _) fun other ho => hdp other (mem_cons_of_mem _ ho)
    rw [setStage_setStage] at hrs
    exact hpc.trans ((of_move hps hcr).trans hrs)

end

theorem move_updated (hat : s.stage i = .blocked job key dep deps keys chk)
    (hr : s.results dep job.ns = some (.ok ())) :
    ∃ err, checkSBAndCCEP v.support (v.blockNumber, i) job.ccEP job.sd key
        (.error .updated) chk = .error err ∧
      s.move v b i 0 = s.post i job.ns job.rest (.error err) := by
  refine ⟨_, rfl, ?_⟩
  simp only [move, hat, hr]
  rfl

section

variable {ccEP : Bytes} {j : ℕ} {ns : GoString} (hs : Tracked v b s)
  (hio : v.getInfoForValidate ns = .ok ccEP) (hrec : s.recorded j ns)

include hs hio hrec

theorem results_error (hf : verdict v b ns ccEP j ≠ .ok ()) :
    ∃ err, s.results j ns = some (.error err) := by
  obtain ⟨r, hr⟩ := Option.isSome_iff_exists.mp hrec
  obtain ⟨_, hpol, hvr⟩ := hs.results hr
  rw [hio] at hpol
  cases hpol
  cases r with
  | error err => exact ⟨err, hr⟩
  | ok => exact absurd hvr.symm hf

end

variable (hcr : s.crashed = false) (hs : Tracked v b s)

include hcr hs

variable (hat : s.stage i = .evaluating job keys chk)

include hat

theorem all_inserted (hn : ∀ j < i, Inserts v b j) : (List.range i).all s.inserted = true := by
  have hst := (hs.stages i).extracted hcr
  rw [hat] at hst
  rw [all_eq_true]
  intro j hj
  have hlt := mem_range.mp hj
  exact (hs.inserted_iff j).mpr ⟨hst j hlt.le, hn j hlt⟩

end Evaluation

section Namespace

variable {v block b} {s : State} {i : ℕ} {rest : List GoString} {ns : GoString}

theorem exists_choice (hat : s.stage i = .choosing rest) (hns : ns ∈ rest) :
    ∃ choice, s.move v b i choice = match v.getInfoForValidate ns with
      | .error err => s.setStage i (.done (infoResult err))
      | .ok ccEP => s.setStage i (.preparing ns (rest.erase ns) ccEP (i + 1)) := by
  obtain ⟨choice, hchoice⟩ := mem_iff_getElem?.mp hns
  obtain ⟨_, _, rfl⟩ := exists_cons_of_ne_nil (ne_nil_of_mem hns)
  refine ⟨choice, ?_⟩
  cases hinfo : v.getInfoForValidate ns <;> simp only [move, hat, hchoice, hinfo]

theorem moves_to_refused {err : InfoError} (hcr : s.crashed = false)
    (hat : s.stage i = .choosing rest) (hns : ns ∈ rest)
    (hio : v.getInfoForValidate ns = .error err) :
    Moves v b i s (s.setStage i (.done (infoResult err))) := by
  obtain ⟨_, hmove⟩ := exists_choice (v := v) (b := b) hat hns
  rw [hio] at hmove
  exact .of_move hmove hcr

theorem moves_to_chosen {ccEP : Bytes} (hcr : s.crashed = false) (hat : s.stage i = .choosing rest)
    (hns : ns ∈ rest) (hio : v.getInfoForValidate ns = .ok ccEP) :
    Moves v b i s (s.setStage i (.preparing ns (rest.erase ns) ccEP (i + 1))) := by
  obtain ⟨_, hmove⟩ := exists_choice (v := v) (b := b) hat hns
  rw [hio] at hmove
  exact .of_move hmove hcr

theorem extract_alive {j : ℕ} (hp : ¬ Panics v b j) (hcr : s.crashed = false) :
    (s.extract v b j).crashed = false := by
  unfold State.extract
  split_ifs
  · exact hcr
  split
  next text htx =>
    exact absurd ⟨text, htx⟩ hp
  · exact hcr
  · exact hcr

end Namespace

/-! ## Waiting -/

inductive WaitsInVain (workers : ℕ) (state : State) (i : ℕ) : Prop where
  | insertion {job : Job} {key : LedgerKeyID} {keys : List LedgerKeyID}
      {checker : PolicyCheckerV20} {j : ℕ}
      (hat : state.stage i = .evaluating job (key :: keys) checker) (hj : j < i)
      (hnever : ∀ more : List Event,
        (more.foldl (State.step v block workers) state).inserted j = false)
  | result {job : Job} {key : LedgerKeyID} {dep : ℕ} {deps : List ℕ}
      {keys : List LedgerKeyID} {checker : PolicyCheckerV20}
      (hat : state.stage i = .blocked job key dep deps keys checker)
      (hnever : ∀ more : List Event,
        (more.foldl (State.step v block workers) state).results dep job.ns = none)

def NeverStuck : Prop :=
  ∀ workers events, (run v block workers events).crashed = false ∧
    ∀ i, ¬ WaitsInVain v block workers (run v block workers events) i

def Validates (i : ℕ) (ns : GoString) (ccEP : Bytes) : Prop :=
  i < block.length ∧ v.getInfoForValidate ns = .ok ccEP ∧
    ∃ txID env namespaces,
      validateTx v (txBytes block i) = .dispatched txID env namespaces ∧ ns ∈ namespaces

def SurelyRecords (j : ℕ) (ns : GoString) : Prop :=
  ∃ txID env namespaces,
    validateTx v (txBytes block j) = .dispatched txID env namespaces ∧
      ns ∈ namespaces ∧ ∀ other ∈ namespaces, other ≠ ns → Passes v block j other

structure Unhindered : Prop where
  panics : ∀ {i ns ccEP}, Validates v block i ns ccEP → ∀ j ≤ i, ¬ Panics v block j
  inserts : ∀ {i ns ccEP sd key keys checker}, Validates v block i ns ccEP →
    Reaches v block i ns ccEP sd (key :: keys) checker →
    ∀ j < i, Inserts v block j
  records : ∀ {i ns ccEP sd key keys checker}, Validates v block i ns ccEP →
    Reaches v block i ns ccEP sd (key :: keys) checker →
    ∀ j < i, key ∈ depKeys v block j → SurelyRecords v block j ns

structure Advances (workers : ℕ) : Prop where
  alive : ∀ {state}, Reachable v block workers state → state.crashed = false
  inserted : ∀ {state i job key keys checker}, Reachable v block workers state →
    state.stage i = .evaluating job (key :: keys) checker →
    (List.range i).all state.inserted = true
  recorded : ∀ {state i job key dep deps keys checker}, Reachable v block workers state →
    state.stage i = .blocked job key dep deps keys checker →
    (state.stage dep).isDone = true → state.recorded dep job.ns

section Progress

variable {v block b} {ws : ℕ} {s s' : State} {i j : ℕ} {ns : GoString}

theorem Reachable.lt_of_not_waiting (hre : Reachable v b ws s)
    (hat : s.stage i ≠ .waiting) : i < b.length := by
  obtain ⟨-, hbg⟩ := hre.tracked
  have hs : i < s.started := by
    by_contra hlate
    exact hat ((hbg.iff i).mpr (Nat.le_of_not_lt hlate))
  exact lt_of_lt_of_le hs hbg.bound

variable {rest : List GoString} {ccEP : Bytes}

theorem InLoop.validates {rec : GoString → Prop} (hlp : InLoop v b i rec (ns :: rest))
    (hin : v.getInfoForValidate ns = .ok ccEP) (hi : i < b.length) :
    Validates v b i ns ccEP := by
  obtain ⟨txID, env, nss, he, hs, -⟩ := hlp.dispatched
  exact ⟨hi, hin, txID, env, nss, he, hs ns mem_cons_self⟩

/-! ## A worker that can go on gets to its end -/

def Stage.rank : Stage → ℕ ×ₗ ℕ ×ₗ ℕ
  | .choosing rest => toLex (3 * rest.length + 2, toLex (0, 0))
  | .preparing _ rest _ count => toLex (3 * rest.length + 4, toLex (count, 0))
  | .evaluating job keys _ => toLex (3 * job.rest.length + 3, toLex (2 * keys.length + 1, 0))
  | .awaiting job _ deps keys _ =>
    toLex (3 * job.rest.length + 3, toLex (2 * keys.length + 2, 2 * deps.length))
  | .blocked job _ _ deps keys _ =>
    toLex (3 * job.rest.length + 3, toLex (2 * keys.length + 2, 2 * deps.length + 1))
  | _ => toLex (0, toLex (0, 0))

def Ready (state : State) (i : ℕ) : Prop :=
  match state.stage i with
  | .waiting => False
  | .done _ => False
  | .evaluating _ (_ :: _) _ => (List.range i).all state.inserted = true
  | .blocked job _ dep _ _ _ => state.recorded dep job.ns
  | _ => True

theorem post_rank (ns : GoString) (rest : List GoString) (r : NsResult)
    {stage : Stage} (hst : (ofLex stage.rank).1 = 3 * rest.length + 3 ∨
      (ofLex stage.rank).1 = 3 * rest.length + 4) :
    ((s.post i ns rest r).stage i).rank < stage.rank := by
  rw [lt_iff, post_stage_self]
  left
  cases r with
  | error err =>
    have hzr : (ofLex (afterResult rest (.error err)).rank).1 = 0 := rfl
    omega
  | ok done =>
    have hle : (ofLex (afterResult rest (.ok done)).rank).1 = 3 * rest.length + 2 := rfl
    omega

theorem unpack_rank :
    (s.unpack v b i ns rest ccEP).crashed = true ∨
      ((s.unpack v b i ns rest ccEP).stage i).rank < (preparing ns rest ccEP 0).rank := by
  unfold unpack
  split
  · exact .inl rfl
  · exact .inr (post_rank _ _ _ (.inr rfl))
  split
  · exact .inr (post_rank _ _ _ (.inr rfl))
  · right
    rw [setStage_stage_self, lt_iff]
    exact .inl (Nat.lt_succ_self _)

theorem move_rank (hready : Ready s i) :
    (s.move v b i 0).crashed = true ∨ ((s.move v b i 0).stage i).rank < (s.stage i).rank := by
  unfold Ready at hready
  cases hat : s.stage i with
  | waiting | done => simp [hat] at hready
  | choosing rest =>
    right
    cases rest with
    | nil =>
      simp only [move, hat]
      split <;> simp [rank, lt_iff]
    | cons ns others =>
      have hchosen : (ns :: others)[0]? = some ns := rfl
      have herased : (ns :: others).erase ns = others := erase_cons_head ns others
      simp only [move, hat, hchosen, herased]
      split
      · simp [rank, lt_iff]
      · simp [rank, lt_iff]
        omega
  | preparing _ _ _ count =>
    cases count with
    | zero =>
      simp only [move, hat]
      exact unpack_rank
    | succ =>
      right
      simp [move, hat, rank, lt_iff]
  | evaluating _ keys =>
    right
    cases keys with
    | nil =>
      simp only [move, hat]
      exact post_rank _ _ _ (.inl rfl)
    | cons =>
      have hinserted : (List.range i).all s.inserted = true := by simpa only [hat] using hready
      simp only [move, hat, hinserted, if_true]
      simp [rank, lt_iff]
      omega
  | awaiting _ _ deps =>
    right
    cases deps with
    | nil =>
      simp only [move, hat]
      split
      · exact post_rank _ _ _ (.inl rfl)
      · simp [rank, lt_iff]
    | cons =>
      simp only [move, hat, List.getElem?_cons_zero]
      simp [rank, lt_iff]
      omega
  | blocked job key dep _ _ chk =>
    right
    have hrecorded : s.recorded dep job.ns := by simpa only [hat] using hready
    obtain ⟨r, hr⟩ := Option.isSome_iff_exists.mp hrecorded
    cases r with
    | error =>
      simp only [move, hat, hr]
      simp [rank, lt_iff]
    | ok =>
      have hupdated : ∃ err, checkSBAndCCEP v.support (v.blockNumber, i) job.ccEP job.sd key
          (.error .updated) chk = .error err ∧ s.move v b i 0 = _ := move_updated hat hr
      obtain ⟨_, -, hmove⟩ := hupdated
      rw [hmove]
      exact post_rank _ _ _ (.inl rfl)

theorem Advances.exists_rest (hadv : Advances v b ws)
    {s : State} (hre : Reachable v b ws s) (i : ℕ) : ∃ la, Moves v b i s la ∧ ¬ Ready la i := by
  induction hrn : (s.stage i).rank using WellFoundedLT.induction generalizing s with
  | ind _ ih =>
    by_cases hry : Ready s i
    · have hal := hadv.alive hre
      have hmv : Moves v b i s (s.move v b i 0) := Moves.of_move rfl hal
      have hnx := hre.moves hmv
      have hrn' : (s.move v b i 0).crashed = true ∨
          ((s.move v b i 0).stage i).rank < (s.stage i).rank :=
        move_rank hry
      have hle := hrn'.resolve_left (by simp [hadv.alive hnx])
      obtain ⟨la, hmo, hrs⟩ := ih _ (hrn ▸ hle) hnx rfl
      exact ⟨la, hmv.trans hmo, hrs⟩
    · exact ⟨s, .refl, hry⟩

theorem Advances.done_of_not_ready (hadv : Advances v b ws)
    (hre : Reachable v b ws s) (hs : s.stage i ≠ .waiting)
    (hbl : ∀ l < i, (s.stage l).isDone = true) (hry : ¬ Ready s i) : (s.stage i).isDone = true := by
  have hft := (hre.tracked.1.stages i).faithful
  unfold Ready at hry
  cases hat : s.stage i with
  | waiting => exact absurd hat hs
  | done => rfl
  | choosing | preparing | awaiting => simp [hat] at hry
  | evaluating _ keys =>
    cases keys with
    | nil => simp [hat] at hry
    | cons =>
      simp only [hat] at hry
      exact absurd (hadv.inserted hre hat) hry
  | blocked _ _ dep =>
    rw [hat] at hft
    obtain ⟨hlt, -⟩ := hft.2.1 dep mem_cons_self
    simp only [hat] at hry
    exact absurd (hadv.recorded hre hat (hbl dep hlt)) hry

variable {count : ℕ}

theorem Advances.exists_ended (hadv : Advances v b ws)
    (hre : Reachable v b ws s) (hc : count ≤ s.started) :
    ∃ la, Leads v b ws s la ∧ (∀ l < count, (la.stage l).isDone = true) ∧ la.started = s.started ∧
      ∀ l, count ≤ l → la.stage l = s.stage l := by
  induction count with
  | zero => exact ⟨s, ⟨[], rfl⟩, fun l hl => absurd hl (Nat.not_lt_zero l), rfl, fun _ _ => rfl⟩
  | succ count ih =>
    obtain ⟨_, hld, hdo, hs, hst⟩ := ih (Nat.le_of_succ_le hc)
    have hm := hre.leads hld
    obtain ⟨la, hmv, hry⟩ := hadv.exists_rest hm count
    have hla := hm.moves hmv
    have hfr := hmv.untouched
    have hlt : ∀ l < count, (la.stage l).isDone = true := by
      intro l hl
      rw [hfr.stage l hl.ne]
      exact hdo l hl
    have hnt : la.stage count ≠ .waiting := by
      rw [Ne, hla.tracked.2.iff, hfr.started, hs]
      omega
    refine ⟨la, hld.trans (hmv.leads ws), ?_, hfr.started.trans hs, ?_⟩
    · intro l hl
      rcases Nat.lt_succ_iff_lt_or_eq.mp hl with hl | hl
      · exact hlt l hl
      · rw [hl]
        exact hadv.done_of_not_ready hla hnt hlt hry
    · intro l hl
      rw [hfr.stage l (by omega)]
      exact hst l (Nat.le_of_succ_le hl)

def Doomed (v : Validator) (block : List Bytes) (state : State) (j : ℕ) (ns : GoString) : Prop :=
  state.results j ns = none ∧
    ((state.stage j).isDone = true ∨
      ∃ other, (state.stage j).current = some other ∧ other ≠ ns ∧ ¬ Passes v block j other)

section

variable (hdmd : Doomed v b s j ns)

include hdmd

theorem Doomed.change (htr : Tracked v b s')
    (hh : Change v b j s s') (hdo : (s.stage j).isDone = true → s' = s) : Doomed v b s' j ns := by
  obtain ⟨hno, hed | ⟨other, hc, hne, hfl⟩⟩ := hdmd
  · rw [hdo hed]
    exact ⟨hno, .inl hed⟩
  cases hh with
  | nothing | crash => exact ⟨hno, .inr ⟨other, hc, hne, hfl⟩⟩
  | stage _ _ heq =>
    rw [hc] at heq
    refine ⟨hno, .inr ⟨other, ?_, hne, hfl⟩⟩
    rw [setStage_stage_self]
    exact heq.resolve_left (by simp)
  | @extract _ _ _ l hat =>
    rw [hat] at hc
    refine ⟨?_, .inr ⟨other, ?_, hne, hfl⟩⟩
    · change (s.extract v b l).results j ns = none
      rw [extract_results]
      exact hno
    · rw [setStage_stage_self]
      exact hc
  | post _ rest result hp =>
    rw [hc] at hp
    cases hp
    have hr : (s.post j other rest result).results j other = some result := by
      simp [post]
    refine ⟨by simp [post, Ne.symm hne, hno], .inl ?_⟩
    rw [post_stage_self]
    cases result with
    | error => rfl
    | ok =>
      obtain ⟨ccEP, hin, hvr⟩ := htr.results hr
      exact absurd ⟨ccEP, hin, hvr.symm⟩ hfl

theorem Doomed.step (hre : Reachable v b ws s) (ev : Event) :
    Doomed v b (s.step v b ws ev) j ns := by
  have hnx : Reachable v b ws (s.step v b ws ev) := hre.leads ⟨[ev], rfl⟩
  unfold State.step at hnx ⊢
  split_ifs at hnx ⊢
  · exact hdmd
  cases ev with
  | start =>
    obtain ⟨hno, hst⟩ := hdmd
    simp only
    unfold start
    split_ifs
    · have heq : j ≠ s.started := by
        intro heq
        rw [(hre.tracked.2.iff j).mpr heq.ge] at hst
        simp [isDone, current] at hst
      refine ⟨hno, ?_⟩
      simp only [update_of_ne heq]
      exact hst
    · exact ⟨hno, hst⟩
  | move l ch =>
    have hc : Change v b l s (s.move v b l ch) := move_change ch
    by_cases heq : l = j
    · subst heq
      refine hdmd.change hnx.tracked.1 hc ?_
      intro hed
      cases hat : s.stage l with
      | done => simp [move, hat]
      | _ => simp [hat, isDone] at hed
    · unfold Doomed
      rw [hc.results_eq (Ne.symm heq), hc.stage_eq (Ne.symm heq)]
      exact hdmd

theorem Doomed.leads (hre : Reachable v b ws s) (hld : Leads v b ws s s') : Doomed v b s' j ns := by
  obtain ⟨more, hmr⟩ := hld
  subst hmr
  induction more using List.reverseRecOn with
  | nil => exact hdmd
  | append_singleton more ev ih =>
    rw [foldl_append]
    exact ih.step (hre.leads ⟨more, rfl⟩) ev

end

theorem NeverStuck.advances (hnv : NeverStuck v b) (ws : ℕ) : Advances v b ws where
  alive hre := by
    obtain ⟨evs, hs⟩ := hre
    exact hs ▸ (hnv ws evs).1
  inserted := by
    intro s i _ _ _ _ hre hat
    obtain ⟨evs, hs⟩ := hre
    by_contra hn
    simp only [all_eq_true, mem_range] at hn
    push Not at hn
    obtain ⟨j, hj, hins⟩ := hn
    obtain ⟨hcr, hwt⟩ := hnv ws evs
    rw [hs] at hcr hwt
    have hre : Reachable v b ws s := ⟨evs, hs⟩
    obtain ⟨htr, -⟩ := hre.tracked
    have hex := (htr.stages i).extracted hcr
    rw [hat] at hex
    have hn : ¬ Inserts v b j := fun hin =>
      hins ((htr.inserted_iff j).mpr ⟨hex j hj.le, hin⟩)
    refine hwt i (.insertion hat hj ?_)
    intro more
    have hl := (hre.leads ⟨more, rfl⟩).tracked.1.inserted_iff j
    rw [Bool.eq_false_iff, Ne, hl]
    exact fun hbo => hn hbo.2
  recorded := by
    intro s i job _ dep _ _ _ hre hat hdo
    obtain ⟨evs, hs⟩ := hre
    by_contra hn
    have hno : s.results dep job.ns = none := by
      simpa [recorded] using hn
    have hdmd : Doomed v b s dep job.ns := ⟨hno, .inl hdo⟩
    obtain ⟨-, hwt⟩ := hnv ws evs
    rw [hs] at hwt
    refine hwt i (.result hat ?_)
    intro more
    exact (hdmd.leads ⟨evs, hs⟩ ⟨more, rfl⟩).1

theorem SurelyRecords.recorded {rec : GoString → Prop} {r : TxResult} (hrc : SurelyRecords v b j ns)
    (hin : v.getInfoForValidate ns = .ok ccEP) (hes : Ends v b j rec r) : rec ns := by
  obtain ⟨_, _, _, he, hns, hos⟩ := hrc
  unfold Ends at hes
  rw [he] at hes
  cases hes with
  | passed _ hr => exact (hr ns).mpr hns
  | @failed _ sp hla hfl hsl _ =>
    by_cases heq : sp = ns
    · subst heq
      exact hsl.mpr ⟨ccEP, hin⟩
    obtain ⟨_, hpol, hok⟩ := hos sp hla heq
    rcases hfl with ⟨_, herr, -⟩ | ⟨_, _, ho, hvr, -⟩
    · rw [hpol] at herr
      cases herr
    · rw [hpol] at ho
      cases ho
      rw [hok] at hvr
      cases hvr

section

variable (hfe : Unhindered v b)

include hfe

theorem Unhindered.move_alive (hre : Reachable v b ws s) (hcr : s.crashed = false) (ch : ℕ) :
    (s.move v b i ch).crashed = false := by
  have hst := hre.tracked.1.stages i
  have hc : Change v b i s (s.move v b i ch) := move_change ch
  generalize s.move v b i ch = next at hc ⊢
  cases hc with
  | nothing | stage | post => exact hcr
  | @extract ns _ ccEP j hat =>
    rw [hat] at hst
    have hl : i < b.length := hre.lt_of_not_waiting (by simp [hat])
    have hvl : Validates v b i ns ccEP := hst.progress.validates hst.faithful hl
    exact extract_alive (hfe.panics hvl j (Nat.lt_succ_iff.mp (hst.extracted hcr).1)) hcr
  | crash hat hpn =>
    rw [hat] at hst
    obtain ⟨_, _, _, he, -, -⟩ := hst.progress.dispatched
    obtain ⟨_, htx⟩ := validateTx_dispatched he
    rw [htx.artifacts] at hpn
    cases hpn

theorem Unhindered.alive (ws : ℕ) (evs : List Event) : (run v b ws evs).crashed = false := by
  induction evs using List.reverseRecOn with
  | nil => rfl
  | append_singleton evs ev ih =>
    unfold run at ih ⊢
    rw [foldl_append]
    simp only [foldl_cons, foldl_nil, State.step, ih, Bool.false_eq_true, if_false]
    cases ev with
    | start =>
      simp only [start]
      split_ifs <;> exact ih
    | move _ ch => exact hfe.move_alive ⟨evs, rfl⟩ ih ch

theorem Unhindered.advances (ws : ℕ) : Advances v b ws where
  alive hre := by
    obtain ⟨evs, hs⟩ := hre
    exact hs ▸ hfe.alive ws evs
  inserted := by
    intro s i _ _ _ _ hre hat
    obtain ⟨htr, -⟩ := hre.tracked
    obtain ⟨evs, hs⟩ := hre
    have hcr : s.crashed = false := hs ▸ hfe.alive ws evs
    have hpg := (htr.stages i).progress
    have hft := (htr.stages i).faithful
    rw [hat] at hpg hft
    have hl : i < b.length := Reachable.lt_of_not_waiting ⟨evs, hs⟩ (by simp [hat])
    exact all_inserted hcr htr hat (hfe.inserts (hpg.validates hft.1 hl) hft.2.2)
  recorded := by
    intro s i _ _ dep _ _ _ hre hat hdo
    obtain ⟨htr, -⟩ := hre.tracked
    have hpg := (htr.stages i).progress
    have hft := (htr.stages i).faithful
    rw [hat] at hpg hft
    obtain ⟨⟨hin, -, hr⟩, hcov⟩ := hft
    obtain ⟨hlt, hk⟩ := hcov.1 dep mem_cons_self
    have hl : i < b.length := hre.lt_of_not_waiting (by simp [hat])
    have hrc := hfe.records (hpg.validates hin hl) hr dep hlt hk
    have hes := (htr.stages dep).progress
    cases hd : s.stage dep with
    | done =>
      rw [hd] at hes
      exact hrc.recorded hin hes
    | _ => simp [hd, isDone] at hdo

theorem Unhindered.neverStuck : NeverStuck v b := by
  intro ws evs
  have hadv := hfe.advances ws
  have hre : Reachable v b ws (run v b ws evs) := ⟨evs, rfl⟩
  refine ⟨hfe.alive ws evs, ?_⟩
  rintro i (⟨hat, hj, hnv⟩ | ⟨hat, hnv⟩)
  · have hn := hadv.inserted hre hat
    rw [all_eq_true] at hn
    have hfl := hnv []
    rw [foldl_nil, hn _ (mem_range.mpr hj)] at hfl
    cases hfl
  rename_i job key dep deps keys chk
  obtain ⟨htr, hbg⟩ := hre.tracked
  have hft := (htr.stages i).faithful
  rw [hat] at hft
  obtain ⟨hlt, -⟩ := hft.2.1 dep mem_cons_self
  have hs : dep + 1 ≤ (run v b ws evs).started := by
    by_contra hlate
    have hwt := (hbg.iff i).mpr (by omega)
    rw [hat] at hwt
    cases hwt
  obtain ⟨_, hld, hdo, -, hst⟩ := hadv.exists_ended hre hs
  have hr := hadv.recorded (hre.leads hld) ((hst i hlt).trans hat) (hdo dep (Nat.lt_succ_self dep))
  obtain ⟨more, hmr⟩ := hld
  unfold recorded at hr
  rw [← hmr, hnv more] at hr
  cases hr

end

/-! ## The condition is necessary -/

theorem exists_started (hc : count ≤ b.length) (hw : count ≤ ws) :
    ∃ s, Reachable v b ws s ∧ s.crashed = false ∧ s.started = count ∧
      ∀ l < count, s.stage l = firstStage v b l := by
  induction count with
  | zero => exact ⟨.initial, ⟨[], rfl⟩, rfl, rfl, fun l hl => absurd hl (Nat.not_lt_zero l)⟩
  | succ count ih =>
    obtain ⟨s, hre, hcr, hs, hst⟩ := ih (Nat.le_of_succ_le hc) (Nat.le_of_succ_le hw)
    have hfe : ((List.range count).filter fun l =>
        !(s.stage l).isDone).length < ws :=
      lt_of_le_of_lt (length_filter_le _ _) (by rw [length_range]; exact hw)
    refine ⟨_, hre.leads ⟨[.start], step_start hcr hs hc hfe⟩, hcr, rfl, ?_⟩
    intro l _
    by_cases heq : l = count
    · subst heq
      simp
    · simp only [update_of_ne heq]
      exact hst l (by omega)

theorem Advances.moves_to_prepared (hadv : Advances v b ws) {s : State}
    (hre : Reachable v b ws s) (hat : s.stage i = .preparing ns rest ccEP count) :
    ∃ la, Moves v b i s la ∧ la.stage i = .preparing ns rest ccEP 0 := by
  induction count generalizing s with
  | zero => exact ⟨s, .refl, hat⟩
  | succ count ih =>
    let next := (s.extract v b count).setStage i (.preparing ns rest ccEP count)
    have hmo : s.move v b i 0 = next := by
      simp only [move, hat]
      rfl
    have hnx : Moves v b i s next := Moves.of_move hmo (hadv.alive hre)
    obtain ⟨la, hmv, hst⟩ := ih (hre.moves hnx) (setStage_stage_self _)
    exact ⟨la, hnx.trans hmv, hst⟩

section Awaiting

variable {job : Job} {key : LedgerKeyID} {deps : List ℕ}
  {keys : List LedgerKeyID} {chk : PolicyCheckerV20}

section

variable (hadv : Advances v b ws) (hre : Reachable v b ws s)

include hadv hre

theorem Advances.moves_to_awaiting (hat : s.stage i = .evaluating job (key :: keys) chk) :
    Moves v b i s (s.setStage i (.awaiting job key (s.dependenciesForTxnum key i) keys chk)) ∧
      Covers v b i job key (s.dependenciesForTxnum key i) ∧
      ∀ j < i, key ∈ depKeys v b j → j ∈ s.dependenciesForTxnum key i := by
  have hn := hadv.inserted hre hat
  have hmv : s.move v b i 0 = s.setStage i (.awaiting job key
      (s.dependenciesForTxnum key i) keys chk) := by
    simp only [move, hat, hn, if_true]
  have hs := hre.tracked.1
  exact ⟨Moves.of_move hmv (hadv.alive hre), hs.dependencies job key hn,
    fun _ hj hkey => hs.mem_dependencies hn hj hkey⟩

theorem Advances.recorded_of_awaiting (hbl : ∀ l < i, (s.stage l).isDone = true)
    (hat : s.stage i = .awaiting job key deps keys chk) {dep : ℕ}
    (hd : dep ∈ deps) : s.recorded dep job.ns := by
  have hft := (hre.tracked.1.stages i).faithful
  rw [hat] at hft
  obtain ⟨hlt, -⟩ := hft.2.1 dep hd
  have hmv : Moves v b i s _ := moves_to_blocked (hadv.alive hre) hat hd
  have hdo : ((s.setStage i (.blocked job key dep (deps.erase dep) keys chk)).stage dep).isDone =
      true := by
    rw [hmv.untouched.stage dep hlt.ne]
    exact hbl dep hlt
  have hr := hadv.recorded (hre.moves hmv) (setStage_stage_self _) hdo
  exact hr

end

theorem not_updated_of_check {ccEP : Bytes} {sd : List SignedData} {next : PolicyCheckerV20}
    (hc : checkSBAndCCEP v.support (v.blockNumber, i) ccEP sd key
      (getValidationParameterForKey v.support (updatedBefore v b ns ccEP i) key) chk = .ok next) :
    updatedBefore v b ns ccEP i key = false := by
  by_contra hupd
  rw [Bool.not_eq_false] at hupd
  simp only [getValidationParameterForKey, hupd, if_true] at hc
  cases hc

end Awaiting

theorem Advances.moves_to_reached (hadv : Advances v b ws) {sd : List SignedData}
    {keys : List LedgerKeyID} {chk : PolicyCheckerV20} (hre : Reachable v b ws s)
    (hbl : ∀ l < i, (s.stage l).isDone = true) (hat : s.stage i = .choosing rest) (hns : ns ∈ rest)
    (hin : v.getInfoForValidate ns = .ok ccEP) (hr : Reaches v b i ns ccEP sd keys chk) :
    ∃ la, Moves v b i s la ∧ la.stage i = .evaluating ⟨ns, rest.erase ns, ccEP, sd⟩ keys chk := by
  induction hr with
  | @start va rws har hrw =>
    have hh : Moves v b i s (s.setStage i (.preparing ns (rest.erase ns) ccEP (i + 1))) :=
      moves_to_chosen (hadv.alive hre) hat hns hin
    obtain ⟨ready, hmv, hst⟩ := hadv.moves_to_prepared (hre.moves hh) (setStage_stage_self _)
    have hry := hh.trans hmv
    have hn : ready.move v b i 0 = ready.setStage i (.evaluating
        ⟨ns, rest.erase ns, ccEP, signatureSet va.prp va.endorsements⟩
        ((writtenKeys rws ns).map (WrittenKey.ledgerKeyID ns)) .new) := by
      simp only [move, hst, unpack]
      rw [har]
      simp only
      rw [hrw]
    exact ⟨_, hry.trans (Moves.of_move hn (hadv.alive (hre.moves hry))), setStage_stage_self _⟩
  | @next sd key keys chk next _ hc ih =>
    obtain ⟨md, hmv, hst⟩ := ih
    have hm := hre.moves hmv
    obtain ⟨hf, hv, -⟩ := hadv.moves_to_awaiting hm hst
    let job : Job := ⟨ns, rest.erase ns, ccEP, sd⟩
    let waiting := md.setStage i (.awaiting job key (md.dependenciesForTxnum key i) keys chk)
    have hwt : Reachable v b ws waiting := hm.moves hf
    have hw := hmv.trans hf
    have hed : ∀ l < i, (waiting.stage l).isDone = true := by
      intro l hl
      rw [hw.untouched.stage l hl.ne]
      exact hbl l hl
    have hu := not_updated_of_check hc
    have hps : Moves v b i waiting (waiting.setStage i (.awaiting job key [] keys chk)) := by
      refine moves_past_failed (hadv.alive hwt) (setStage_stage_self _) fun dep hd => ?_
      obtain ⟨hlt, hk⟩ := hv.1 dep hd
      exact results_error hwt.tracked.1 hin
        (hadv.recorded_of_awaiting hwt hed (setStage_stage_self _) hd)
        ((updatedBefore_eq_false_iff v b).mp hu dep hlt hk)
    simp only [getValidationParameterForKey, hu, Bool.false_eq_true, if_false] at hc
    have hnx : (waiting.setStage i (.awaiting job key [] keys chk)).move v b i 0 =
        (waiting.setStage i (.awaiting job key [] keys chk)).setStage i
          (.evaluating job keys next) := by
      simp only [move, setStage_stage_self]
      rw [hc]
    exact ⟨_, (hw.trans hps).trans (Moves.of_move hnx
      (hadv.alive (hwt.moves hps))), setStage_stage_self _⟩

theorem Advances.exists_doomed (hadv : Advances v b ws) (hre : Reachable v b ws state)
    (hlt : ∀ l < j, (state.stage l).isDone = true) (hs : j < state.started)
    (hat : state.stage j = firstStage v b j) (hn : ¬ SurelyRecords v b j ns) :
    ∃ la, Moves v b j state la ∧ Doomed v b la j ns := by
  have hcr := hadv.alive hre
  have hpg := (hre.tracked.1.stages j).progress
  unfold firstStage at hat
  cases he : validateTx v (txBytes b j) with
  | finished =>
    rw [he] at hat
    rw [hat] at hpg
    simp only [StageProgress, Ends, he] at hpg
    have hno : state.results j ns = none := by
      simpa [State.recorded] using hpg.2 ns
    exact ⟨state, .refl, hno, .inl (by rw [hat]; rfl)⟩
  | dispatched txID env nss =>
    rw [he] at hat
    rw [hat] at hpg
    have hno : state.results j ns = none := by
      obtain ⟨_, _, _, hos, -, hr⟩ := hpg.dispatched
      rw [he] at hos
      cases hos
      have hfr : ¬ state.recorded j ns := by
        rw [hr]
        exact fun hbo => hbo.2 hbo.1
      simpa [State.recorded] using hfr
    by_cases hns : ns ∈ nss
    · have ho : ∃ other ∈ nss, other ≠ ns ∧ ¬ Passes v b j other := by
        by_contra ha
        push Not at ha
        exact hn ⟨txID, env, nss, he, hns, ha⟩
      obtain ⟨other, hm, hne, hfl⟩ := ho
      cases hin : v.getInfoForValidate other with
      | error =>
        exact ⟨_, moves_to_refused hcr hat hm hin, hno, Or.inl (by rw [setStage_stage_self]; rfl)⟩
      | ok =>
        refine ⟨_, moves_to_chosen hcr hat hm hin, hno, .inr ⟨other, ?_, hne, hfl⟩⟩
        rw [setStage_stage_self]
        rfl
    · -- the namespace is none of the transaction's
      obtain ⟨la, hmv, hry⟩ := hadv.exists_rest hre j
      have hla := hre.moves hmv
      have hdo : (la.stage j).isDone = true := by
        refine hadv.done_of_not_ready hla ?_ ?_ hry
        · rw [Ne, hla.tracked.2.iff, hmv.untouched.started]
          omega
        · intro l hl
          rw [hmv.untouched.stage l hl.ne]
          exact hlt l hl
      refine ⟨la, hmv, ?_, .inl hdo⟩
      have hes := (hla.tracked.1.stages j).progress
      cases hst : la.stage j with
      | done =>
        rw [hst] at hes
        simp only [StageProgress, Ends, he] at hes
        have hn : ¬ la.recorded j ns := by
          intro hr
          cases hes with
          | passed _ ha => exact hns ((ha ns).mp hr)
          | failed _ _ _ hos => exact hns (hos ns hr).1
        simpa [State.recorded] using hn
      | _ => simp [hst, isDone] at hdo

theorem NeverStuck.unhindered (hnv : NeverStuck v b) : Unhindered v b where
  panics := by
    intro i _ _ hvl j hj
    obtain ⟨hl, hin, _, _, nss, he, hns⟩ := hvl
    have hadv := hnv.advances (i + 1)
    obtain ⟨s, hre, -, -, hst⟩ := exists_started (v := v) hl le_rfl
    have hat : s.stage i = .choosing nss := by
      rw [hst i (Nat.lt_succ_self i), firstStage, he]
    have hc : Moves v b i s _ := moves_to_chosen (hadv.alive hre) hat hns hin
    obtain ⟨_, hmv, hls⟩ := hadv.moves_to_prepared (hre.moves hc) (setStage_stage_self _)
    have hn := hre.moves (hc.trans hmv)
    have hex := (hn.tracked.1.stages i).extracted (hadv.alive hn)
    rw [hls] at hex
    exact hn.tracked.1.panics j (hex.2 j (Nat.zero_le j) hj)
  inserts := by
    intro i _ _ _ _ _ _ hvl hr j hj
    obtain ⟨hl, hin, _, _, nss, he, hns⟩ := hvl
    have hadv := hnv.advances (i + 1)
    obtain ⟨_, hf, -, ht, hst⟩ := exists_started (v := v) hl le_rfl
    obtain ⟨s, hld, hlt, -, hrs⟩ := hadv.exists_ended hf (Nat.le_of_succ_le ht.ge)
    have hre := hf.leads hld
    have hat : s.stage i = .choosing nss := by
      rw [hrs i le_rfl, hst i (Nat.lt_succ_self i), firstStage, he]
    obtain ⟨_, hmv, hls⟩ := hadv.moves_to_reached hre hlt hat hns hin hr
    have hn := hre.moves hmv
    have hins := hadv.inserted hn hls
    rw [all_eq_true] at hins
    exact ((hn.tracked.1.inserted_iff j).mp (hins j (mem_range.mpr hj))).2
  records := by
    intro i ns _ _ key _ _ hvl hr j hj hk
    by_contra hnot
    obtain ⟨hl, hin, _, _, nss, he, hns⟩ := hvl
    have hadv := hnv.advances (i + 1)
    obtain ⟨_, hf, -, ht, hst⟩ := exists_started (v := v) hl le_rfl
    -- the ws before `j` end, and `j` goes where it misses the namespace
    obtain ⟨_, hld, hlt, _, hrs⟩ := hadv.exists_ended hf (hj.le.trans (Nat.le_of_succ_le ht.ge))
    have hea := hf.leads hld
    obtain ⟨missed, hm, hdmd⟩ := hadv.exists_doomed hea hlt
      (by omega) ((hrs j le_rfl).trans (hst j (by omega))) hnot
    have hms := hea.moves hm
    -- then the others before `i` end, and `i` comes to the key
    obtain ⟨late, hla, hed, -, hos⟩ :=
      hadv.exists_ended hms (show i ≤ missed.started by rw [hm.untouched.started]; omega)
    have hre := hms.leads hla
    have hat : late.stage i = .choosing nss := by
      rw [hos i le_rfl, hm.untouched.stage i hj.ne', hrs i hj.le,
        hst i (Nat.lt_succ_self i), firstStage, he]
    obtain ⟨rc, hmv, hrea⟩ := hadv.moves_to_reached hre hed hat hns hin hr
    have hn := hre.moves hmv
    have hd' : Doomed v b rc j ns := (hdmd.leads hms hla).leads hre (hmv.leads _)
    obtain ⟨haw, -, hdeps⟩ := hadv.moves_to_awaiting hn hrea
    have hd := hdeps j hj hk
    have hai := hn.moves haw
    have hb : Moves v b i _ _ := moves_to_blocked (hadv.alive hai) (setStage_stage_self _) hd
    have hblc := hai.moves hb
    have hd'' := hd'.leads hn ((haw.trans hb).leads (i + 1))
    obtain ⟨evs, hs⟩ := hblc
    refine (hnv (i + 1) evs).2 i (.result (hs ▸ setStage_stage_self _) fun more => ?_)
    rw [hs]
    exact (hd''.leads ⟨evs, hs⟩ ⟨more, rfl⟩).1

end Progress

/-- An empty `Transaction` has no actions. -/
def emptyTxValidator : Validator :=
  { unnamedValidator with
    codec :=
      { unnamedValidator.codec with
        unmarshalTransaction := fun data =>
          .ok (if data = [] then [] else [data]) } }

end FabricSequencer.TxValidator
