import FabricSequencer.GoTypes

/-!
# The range of a deliver request

`deliverBlocks` resolves the start of a request when it opens the iterator, and
the stop a moment later, while the chain grows.  It ends when it has sent the
block that has the number of the stop.

The verdicts on the envelope, the channel and the access are given.  A response
that cannot be sent counts as not sent.
-/

namespace FabricSequencer.Deliver

inductive Status where
  | success
  | badRequest
  | notFound
  | serviceUnavailable
  | forbidden
  | internalServerError
deriving DecidableEq

inductive SeekType where
  | oldest
  | newest
  | specified (number : ℕ)
  | nextCommit
  | unset
deriving DecidableEq

/-- `proto.Equal` compares positions with their unknown fields. -/
structure SeekPosition where
  type : SeekType
  unknownFields : Bytes
deriving DecidableEq

structure SeekInfo where
  start : Option SeekPosition
  stop : Option SeekPosition
  failIfNotReady : Bool
  bestEffort : Bool

structure BlockchainInfo where
  height : ℕ
  lastBlockInSnapshot : Option ℕ

def lastNumber (height : ℕ) : ℕ := uint64 (height + 2 ^ 64 - 1)

/-- The first block of `FileLedger.Iterator`, or none for the
`NotFoundErrorIterator`. -/
def iterator (info : BlockchainInfo) (start : SeekType) : Option ℕ :=
  let startingBlockNumber :=
    match start with
    | .oldest => some 0
    | .newest =>
      if info.lastBlockInSnapshot = some (lastNumber info.height) then
        some info.height
      else some (lastNumber info.height)
    | .specified number => if number > info.height then none else some number
    | .nextCommit => some info.height
    | .unset => none
  startingBlockNumber.filter fun number =>
    info.lastBlockInSnapshot.all (· < number)

def stopNumber (start stop : SeekPosition) (number height : ℕ) : Except Status ℕ :=
  match stop.type with
  | .oldest => .ok number
  | .newest => .ok (if start = stop then number else lastNumber height)
  | .specified stopNum =>
    if stopNum < number then .error .badRequest else .ok stopNum
  | .nextCommit => .ok 0
  | .unset => .ok 0

/-- What the `select` of the loop returns with. -/
inductive Selected where
  | contextDone
  | errored
  | iterated (status : Status)

structure Turn where
  height : ℕ
  selected : Selected
  /-- the height of the chain when the `select` returns -/
  available : ℕ
  authorized : Bool
  sent : Bool

/-- The loop, over as many turns as are given: the numbers of the blocks that
are sent, and the status if it has ended. -/
def deliver (failIfNotReady found : Bool) (stopNum : ℕ) : ℕ → List Turn → List ℕ × Option Status
  | _, [] => ([], none)
  | number, turn :: rest =>
    if failIfNotReady && decide (number > lastNumber turn.height) then
      ([], some .notFound)
    else
      match turn.selected with
      | .contextDone => ([], some .internalServerError)
      | .errored => ([], some .serviceUnavailable)
      | .iterated status =>
        if !found then ([], some .notFound)
        else if status ≠ .success then ([], some status)
        else if !turn.authorized then ([], some .forbidden)
        else if !turn.sent then ([], some .internalServerError)
        else if stopNum = number then ([number], some .success)
        else
          let more := deliver failIfNotReady found stopNum (uint64 (number + 1)) rest
          (number :: more.1, more.2)

structure Request where
  parsed : Bool
  chainFound : Bool
  seekInfo : Option SeekInfo
  errored : Bool
  sessionAC : Bool
  authorized : Bool

structure Range where
  failIfNotReady : Bool
  found : Bool
  number : ℕ
  stopNum : ℕ

variable (request : Request)

/-- The checks of `deliverBlocks` before it looks at the positions. -/
def admitted : Except Status SeekInfo :=
  if !request.parsed then .error .badRequest
  else if !request.chainFound then .error .notFound
  else
    match request.seekInfo with
    | none => .error .badRequest
    | some info =>
      if request.errored && !info.bestEffort then .error .serviceUnavailable
      else if !request.sessionAC then .error .badRequest
      else if !request.authorized then .error .forbidden
      else .ok info

def resolve (opened : BlockchainInfo) (height : ℕ) : Except Status Range := do
  let info ← admitted request
  match info.start, info.stop with
  | some start, some stop =>
    let cursor := iterator opened start.type
    let stopNum ← stopNumber start stop (cursor.getD 0) height
    return ⟨info.failIfNotReady, cursor.isSome, cursor.getD 0, stopNum⟩
  | _, _ => .error .badRequest

def deliverBlocks (opened : BlockchainInfo) (height : ℕ)
    (turns : List Turn) : List ℕ × Option Status :=
  match resolve request opened height with
  | .error status => ([], some status)
  | .ok range => deliver range.failIfNotReady range.found range.stopNum range.number turns

/-! ## The requested range -/

structure InRange (start stop : ℕ) (out : List ℕ × Option Status) : Prop where
  consecutive : out.1 = List.range' start out.1.length
  bounded : ∀ number ∈ out.1, number ≤ stop
  ended : out.2 = some .success → out.1.getLast? = some stop

def Grows : ℕ → ℕ → List Turn → Prop
  | _, _, [] => True
  | height, number, turn :: rest =>
    height ≤ turn.height ∧ turn.height ≤ turn.available ∧ turn.available < 2 ^ 64 ∧
      (turn.selected = .iterated .success → number < turn.available) ∧
      Grows turn.available (number + 1) rest

def ExactRange : Prop :=
  ∀ opened height turns, opened.height ≤ height → height < 2 ^ 64 →
    (∀ last, opened.lastBlockInSnapshot = some last → last < opened.height) →
    match resolve request opened height with
    | .error status =>
      status ≠ .success ∧ deliverBlocks request opened height turns = ([], some status)
    | .ok range =>
      Grows height range.number turns →
        InRange range.number range.stopNum (deliverBlocks request opened height turns)

def SeekType.Late : SeekType → Prop
  | .specified number => 0 < number ∧ number + 1 < 2 ^ 64
  | .newest => True
  | .nextCommit => True
  | _ => False

def Unrelated (start stop : SeekPosition) : Prop :=
  match stop.type with
  | .newest => start ≠ stop
  | .nextCommit => True
  | .unset => True
  | _ => False

def RunsPast (info : SeekInfo) : Prop :=
  ∃ start stop, info.start = some start ∧ info.stop = some stop ∧
    start.type.Late ∧ Unrelated start stop

theorem inRange_nil {start stop : ℕ} {status : Option Status}
    (ht : status ≠ some .success) : InRange start stop ([], status) :=
  ⟨rfl, by simp, fun hs => absurd hs ht⟩

theorem InRange.cons {start stop : ℕ} {out : List ℕ × Option Status}
    (hrn : InRange (start + 1) stop out) (hsr : start ≤ stop) :
    InRange start stop (start :: out.1, out.2) where
  consecutive := by
    rw [List.length_cons, List.range'_succ, ← hrn.consecutive]
  bounded := by
    intro num hn
    rcases List.mem_cons.mp hn with heq | hlat
    · exact heq ▸ hsr
    · exact hrn.bounded num hlat
  ended hsuccess := by
    rw [List.getLast?_cons, hrn.ended hsuccess]
    rfl

variable {height : ℕ}

theorem deliver_inRange {failIfNotReady f : Bool} {stopNum num : ℕ} {turns : List Turn}
    (hsr : num ≤ stopNum ∨ 2 ^ 64 ≤ num + 1) (hgr : Grows height num turns) :
    InRange num stopNum (deliver failIfNotReady f stopNum num turns) := by
  induction turns generalizing num height with
  | nil => exact inRange_nil (by simp)
  | cons turn _ ih =>
    obtain ⟨-, -, _, hrd, hrs⟩ := hgr
    unfold deliver
    by_cases hry : (failIfNotReady &&
      decide (num > lastNumber turn.height)) = true
    · rw [if_pos hry]
      exact inRange_nil (by simp)
    rw [if_neg hry]
    split
    · exact inRange_nil (by simp)
    · exact inRange_nil (by simp)
    rename_i status hsl
    split_ifs with hget hstatus hauthorized hsent hstop
    · exact inRange_nil (by simp)
    · exact inRange_nil (by simpa using hstatus)
    · exact inRange_nil (by simp)
    · exact inRange_nil (by simp)
    · subst hstop
      exact ⟨rfl, by simp, fun _ => rfl⟩
    · rw [not_not.mp hstatus] at hsl
      have hlt := hrd hsl
      rw [uint64_of_lt (by omega)]
      exact (ih (.inl (by omega)) hrs).cons (by omega)

theorem lastNumber_of_pos (hp : 0 < height)
    (hlt : height < 2 ^ 64) : lastNumber height = height - 1 := by
  unfold lastNumber uint64
  omega

variable {opened : BlockchainInfo}

theorem iterator_le {start : SeekType} {num : ℕ} (hit : iterator opened start = some num)
    (hlt : ¬ start.Late) (hht : opened.height < 2 ^ 64) : num = 0 ∨ num + 1 = 2 ^ 64 := by
  obtain ⟨hn, -⟩ := Option.filter_eq_some_iff.mp hit
  cases start with
  | oldest => exact .inl (Option.some.inj hn).symm
  | newest | nextCommit => exact absurd trivial hlt
  | unset => cases hn
  | specified =>
    simp only [gt_iff_lt, ite_eq_iff, reduceCtorEq, and_false, false_or,
      not_lt, Option.some.injEq] at hn
    simp only [SeekType.Late, not_and, not_lt] at hlt
    omega

theorem exists_ahead {start : SeekType} (hlt : start.Late) :
    ∃ opened : BlockchainInfo, iterator opened start = some opened.height ∧
      0 < opened.height ∧ opened.height + 1 < 2 ^ 64 ∧
      ∀ la, opened.lastBlockInSnapshot = some la → la < opened.height := by
  cases start with
  | oldest | unset => cases hlt
  | specified n => exact ⟨⟨n, none⟩, by simp [iterator], hlt.1, hlt.2, by simp⟩
  | newest => exact ⟨⟨1, some 0⟩, by decide, by decide, by decide, by simp⟩
  | nextCommit => exact ⟨⟨1, none⟩, by decide, by decide, by decide, by simp⟩

theorem stopNumber_of_unrelated {start stop : SeekPosition}
    (hun : Unrelated start stop) (hp : 0 < height) (hlt : height < 2 ^ 64) :
    ∃ stopNum < height, stopNumber start stop height height = .ok stopNum := by
  unfold Unrelated at hun
  unfold stopNumber
  cases hty : stop.type with
  | oldest | specified => simp [hty] at hun
  | nextCommit | unset => exact ⟨0, hp, rfl⟩
  | newest =>
    simp only [hty] at hun
    refine ⟨height - 1, by omega, ?_⟩
    simp only
    rw [if_neg hun, lastNumber_of_pos hp hlt]

theorem start_le_stopNumber {start stop : SeekPosition} {height stopNum : ℕ}
    (hht : opened.height < 2 ^ 64) (hps : ¬ (start.type.Late ∧ Unrelated start stop))
    (hst : stopNumber start stop ((iterator opened start.type).getD 0) height = .ok stopNum) :
    (iterator opened start.type).getD 0 ≤ stopNum ∨
      2 ^ 64 ≤ (iterator opened start.type).getD 0 + 1 := by
  by_cases hlt : start.type.Late
  · have hr : ¬ Unrelated start stop := fun h => hps ⟨hlt, h⟩
    left
    unfold Unrelated at hr
    unfold stopNumber at hst
    cases hty : stop.type with
    | nextCommit | unset => simp [hty] at hr
    | oldest =>
      simp only [hty, Except.ok.injEq] at hst
      exact hst.le
    | specified =>
      simp only [hty] at hst
      split_ifs at hst with hless
      cases hst
      exact Nat.le_of_not_lt hless
    | newest =>
      simp only [hty, not_not] at hr hst
      rw [if_pos hr] at hst
      cases hst
      exact le_rfl
  · cases hit : iterator opened start.type with
    | none => exact .inl (Nat.zero_le _)
    | some =>
      rcases iterator_le hit hlt hht with hzero | hlast
      · rw [Option.getD_some, hzero]
        exact .inl (Nat.zero_le _)
      · exact .inr hlast.ge

variable {request : Request}

theorem admitted_error {status : Status}
    (had : admitted request = .error status) : status ≠ .success := by
  unfold admitted at had
  grind

theorem admitted_ok {info : SeekInfo} (had : admitted request = .ok info) :
    request.seekInfo = some info := by
  unfold admitted at had
  grind

theorem resolve_error {status : Status} (hr : resolve request opened height = .error status) :
    status ≠ .success := by
  unfold resolve stopNumber at hr
  cases had : admitted request with
  | error =>
    rw [had] at hr
    cases hr
    exact admitted_error had
  | ok =>
    rw [had] at hr
    simp only [bind, Except.bind, pure, Except.pure] at hr
    grind

theorem resolve_ok {range : Range} (hr : resolve request opened height = .ok range) :
    ∃ info start stop, request.seekInfo = some info ∧
      info.start = some start ∧ info.stop = some stop ∧
      range.number = (iterator opened start.type).getD 0 ∧
      stopNumber start stop range.number height = .ok range.stopNum := by
  unfold resolve at hr
  cases had : admitted request with
  | error =>
    rw [had] at hr
    cases hr
  | ok info =>
    rw [had] at hr
    simp only [bind, Except.bind] at hr
    split at hr
    next start stop hsr hst =>
      split at hr
      · cases hr
      rename_i stopNum hn
      cases hr
      exact ⟨info, start, stop, admitted_ok had, hsr, hst, rfl, hn⟩
    · cases hr

theorem exactRange_of_not_runsPast (hps : ∀ info, request.seekInfo = some info → ¬ RunsPast info) :
    ExactRange request := by
  intro opened height _ hp hht _
  unfold deliverBlocks
  cases hr : resolve request opened height with
  | error => exact ⟨resolve_error hr, rfl⟩
  | ok =>
    intro hgr
    obtain ⟨info, start, stop, hin, hsr, hst, hn, hs⟩ := resolve_ok hr
    refine deliver_inRange ?_ hgr
    rw [hn] at hs ⊢
    refine start_le_stopNumber (lt_of_le_of_lt hp hht) ?_ hs
    exact fun hbo =>
      hps info hin ⟨start, stop, hsr, hst, hbo.1, hbo.2⟩

theorem exactRange_iff (info : SeekInfo) :
    (∀ request : Request, request.seekInfo = some info → ExactRange request) ↔ ¬ RunsPast info := by
  constructor
  · rintro hexact ⟨_, _, hsr, hst, hla, hun⟩
    obtain ⟨opened, hit, hpos, hlt, hsn⟩ := exists_ahead hla
    obtain ⟨stopNum, hle, hnum⟩ := stopNumber_of_unrelated hun hpos (Nat.lt_of_succ_lt hlt)
    let turn : Turn := ⟨opened.height + 1, .iterated .success, opened.height + 1, true, true⟩
    have hrn := hexact ⟨true, true, some info, false, true, true⟩ rfl opened
      opened.height [turn] le_rfl (Nat.lt_of_succ_lt hlt) hsn
    have hres : resolve ⟨true, true, some info, false, true, true⟩ opened opened.height =
        .ok ⟨info.failIfNotReady, true, opened.height, stopNum⟩ := by
      simp [resolve, admitted, bind, Except.bind, hsr, hst, hit, hnum]
      rfl
    rw [hres] at hrn
    have hgr : Grows opened.height opened.height [turn] :=
      ⟨Nat.le_succ _, le_rfl, hlt, fun _ => Nat.lt_succ_self _, trivial⟩
    have hry : ¬ opened.height > lastNumber (opened.height + 1) := by
      rw [lastNumber_of_pos (Nat.succ_pos _) hlt]
      omega
    have hmem : opened.height ∈ (deliverBlocks
        ⟨true, true, some info, false, true, true⟩ opened opened.height
        [turn]).1 := by
      unfold deliverBlocks
      rw [hres]
      simp [deliver, turn, hry, hle.ne]
    have hbn := (hrn hgr).bounded _ hmem
    simp only at hbn
    omega
  · intro hps _ hin
    refine exactRange_of_not_runsPast ?_
    intro _ hoth
    rw [hin] at hoth
    cases hoth
    exact hps

theorem specified_to_newest_runs_past :
    deliverBlocks
        ⟨true, true, some ⟨some ⟨.specified 1, []⟩, some ⟨.newest, []⟩, false,
          false⟩, false, true, true⟩ ⟨1, none⟩ 1
        [⟨1, .iterated .success, 2, true, true⟩,
          ⟨2, .iterated .success, 3, true, true⟩] = ([1, 2], none) ∧
      resolve
        ⟨true, true, some ⟨some ⟨.specified 1, []⟩, some ⟨.newest, []⟩, false,
          false⟩, false, true, true⟩ ⟨1, none⟩ 1 =
        .ok ⟨false, true, 1, 0⟩ := by
  exact ⟨rfl, rfl⟩

end FabricSequencer.Deliver
