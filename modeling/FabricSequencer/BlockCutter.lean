import FabricSequencer.GoTypes

/-!
# The block cutter

`blockcutter.receiver` collects ordered envelopes into a pending batch and
decides when the batch becomes a block.  A Go slice that is `nil` is `none`
here, since the callers test for `nil` in one place and for length zero in
another.  The fill-time metric and the start time it is computed from are not
part of the model.
-/

namespace FabricSequencer

/-- `common.Envelope`.  The bytes of fields this build does not know are kept
by the protobuf runtime and written back after the known fields. -/
structure Envelope where
  payload : Bytes
  signature : Bytes
  unknownFields : Bytes := []
deriving DecidableEq

namespace BlockCutter

structure BatchSize where
  maxMessageCount : ℕ
  preferredMaxBytes : ℕ

structure Receiver where
  pendingBatch : Option (List Envelope)
  pendingBatchSizeBytes : ℕ

def newReceiverImpl : Receiver where
  pendingBatch := none
  pendingBatchSizeBytes := 0

variable (receiver r : Receiver)

/-- The messages of a possibly nil slice. -/
def Receiver.pending : List Envelope := receiver.pendingBatch.getD []

variable (message : Envelope)

def messageSizeBytes : ℕ :=
  uint32 (message.payload.length + message.signature.length)

/-- `Cut` returns the current batch and starts a new one. -/
def Receiver.cut : Option (List Envelope) × Receiver :=
  (receiver.pendingBatch, { pendingBatch := none, pendingBatchSizeBytes := 0 })

/-- `append(r.pendingBatch, msg)` together with the byte count. -/
def Receiver.enqueue : Receiver where
  pendingBatch := some (receiver.pending ++ [message])
  pendingBatchSizeBytes := uint32 (receiver.pendingBatchSizeBytes + messageSizeBytes message)

/-- `Ordered`: the batches that are cut, whether messages are left pending,
and the receiver afterwards.  A nil batch among the cut ones would be written
as an empty block. -/
def Receiver.ordered (batchSize : BatchSize) (receiver : Receiver)
    (message : Envelope) : List (List Envelope) × Bool × Receiver :=
  if messageSizeBytes message > batchSize.preferredMaxBytes then
    if receiver.pending.length > 0 then
      let (batch, rest) := receiver.cut
      ([batch.getD [], [message]], false, rest)
    else
      ([[message]], false, receiver)
  else
    let (overflow, current) :=
      if uint32 (receiver.pendingBatchSizeBytes + messageSizeBytes message) >
          batchSize.preferredMaxBytes then
        let (batch, rest) := receiver.cut
        ([batch.getD []], rest)
      else
        ([], receiver)
    let filled := current.enqueue message
    if uint32 filled.pending.length ≥ batchSize.maxMessageCount then
      let (batch, rest) := filled.cut
      (overflow ++ [batch.getD []], false, rest)
    else
      (overflow, true, filled)

/-- What every receiver satisfies between two calls: the slice is nil or has
messages, and an empty receiver counts no bytes. -/
structure Receiver.WellFormed : Prop where
  nonempty : receiver.pendingBatch ≠ some []
  bytes_of_none : receiver.pendingBatch = none → receiver.pendingBatchSizeBytes = 0

@[simp] theorem newReceiverImpl_pending : newReceiverImpl.pending = [] := rfl

theorem newReceiverImpl_wellFormed : newReceiverImpl.WellFormed := by
  constructor <;> simp [newReceiverImpl]

@[simp] theorem Receiver.cut_batch : r.cut.1 = r.pendingBatch := rfl

@[simp] theorem Receiver.pendingBatch_getD : r.pendingBatch.getD [] = r.pending := rfl

@[simp] theorem Receiver.cut_pending : r.cut.2.pending = [] := rfl

theorem Receiver.cut_wellFormed : r.cut.2.WellFormed := by
  constructor <;> simp [Receiver.cut]

@[simp] theorem Receiver.enqueue_pending :
    (r.enqueue message).pending = r.pending ++ [message] := rfl

theorem Receiver.enqueue_wellFormed : (r.enqueue message).WellFormed := by
  constructor <;> simp [Receiver.enqueue]

variable {receiver r : Receiver}

theorem Receiver.WellFormed.pendingBatch_eq_none_iff (hwl : r.WellFormed) :
    r.pendingBatch = none ↔ r.pending = [] := by
  have hne := hwl.nonempty
  cases hbt : r.pendingBatch with
  | none => simp [Receiver.pending, hbt]
  | some =>
    rw [hbt] at hne
    simpa [Receiver.pending, hbt] using hne

theorem Receiver.WellFormed.pending_ne_nil_of_overflow (hwl : r.WellFormed)
    {message : Envelope} {limit : ℕ} (hft : ¬ messageSizeBytes message > limit)
    (hov : uint32 (r.pendingBatchSizeBytes + messageSizeBytes message) > limit) :
    r.pending ≠ [] := by
  intro hn
  have hno := hwl.pendingBatch_eq_none_iff.mpr hn
  have hby := hwl.bytes_of_none hno
  have hsm : messageSizeBytes message < 2 ^ 32 := uint32_lt _
  rw [hby, Nat.zero_add, uint32_of_lt hsm] at hov
  exact hft hov

structure OrderedSpec (receiver : Receiver) (message : Envelope)
    (result : List (List Envelope) × Bool × Receiver) : Prop where
  conserved : result.1.flatten ++ result.2.2.pending = receiver.pending ++ [message]
  batches_nonempty : ∀ batch ∈ result.1, batch ≠ []
  pending_iff : result.2.1 = true ↔ result.2.2.pending ≠ []
  wellFormed : result.2.2.WellFormed

theorem orderedSpec_enqueue
    {r cur : Receiver} {message : Envelope} {limit : ℕ} {overflow : List (List Envelope)}
    (hcn : overflow.flatten ++ cur.pending = r.pending) (hne : ∀ batch ∈ overflow, batch ≠ []) :
    OrderedSpec r message
      (if uint32 (cur.enqueue message).pending.length ≥ limit then
        (overflow ++ [(cur.enqueue message).cut.1.getD []], false, (cur.enqueue message).cut.2)
      else (overflow, true, cur.enqueue message)) := by
  split_ifs with hcnt
  · refine ⟨?_, ?_, ?_, (cur.enqueue message).cut_wellFormed⟩
    · simp [← hcn]
    · intro batch hm
      rw [List.mem_append, List.mem_singleton] at hm
      rcases hm with hold | hlast
      · exact hne batch hold
      · simp [hlast]
    · simp
  · refine ⟨?_, hne, ?_, Receiver.enqueue_wellFormed _ _⟩
    · simp [← hcn]
    · simp

theorem Receiver.WellFormed.ordered_spec (hwl : r.WellFormed)
    (bsz : BatchSize) (message : Envelope) : OrderedSpec r message (r.ordered bsz message) := by
  unfold Receiver.ordered
  split_ifs with hisolated hpend hoverflow
  · refine ⟨?_, ?_, ?_, r.cut_wellFormed⟩
    · simp
    · have hne : r.pending ≠ [] := List.length_pos_iff.mp hpend
      simp [hne]
    · simp
  · have hn : r.pending = [] := by
      simpa using hpend
    refine ⟨?_, ?_, ?_, hwl⟩
    · simp [hn]
    · simp
    · simp [hn]
  · apply orderedSpec_enqueue
    · change [r.pending].flatten ++ [] = r.pending
      simp
    · have hne := hwl.pending_ne_nil_of_overflow hisolated hoverflow
      simpa using hne
  · apply orderedSpec_enqueue <;> simp

end BlockCutter

end FabricSequencer
