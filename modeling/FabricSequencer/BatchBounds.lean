import FabricSequencer.ChannelBundle

/-!
# The bounds of the batches

The cutter counts the bytes of a message and of the pending batch in 32 bits.
-/

namespace FabricSequencer.BlockCutter

open List

def exactSize (msg : Envelope) : ℕ := msg.payload.length + msg.signature.length

def totalSize (msgs : List Envelope) : ℕ := (msgs.map exactSize).sum

inductive Call where
  | ordered (msg : Envelope)
  | cut

variable (b : BatchSize)

def Receiver.call (r : Receiver) : Call → List (List Envelope) × Receiver
  | .ordered msg => ((r.ordered b msg).1, (r.ordered b msg).2.2)
  | .cut => ([r.cut.1.getD []], r.cut.2)

def Receiver.Throughout (holds : Receiver → Call → Prop) : Receiver → List Call → Prop
  | _, [] => True
  | r, call :: calls => holds r call ∧ Throughout holds (r.call b call).2 calls

def BatchFits (batch : List Envelope) : Prop :=
  batch.length ≤ b.maxMessageCount ∧ (batch.length ≤ 1 ∨ totalSize batch ≤ b.preferredMaxBytes)

def WithinBounds (r : Receiver) (call : Call) : Prop :=
  (∀ batch ∈ (r.call b call).1, BatchFits b batch) ∧
    (r.call b call).2.pendingBatchSizeBytes = totalSize (r.call b call).2.pending

/-- A message that is not isolated does not bring the bytes to `2 ^ 32`. -/
def StaysBelow (r : Receiver) : Call → Prop
  | .ordered msg => messageSizeBytes msg ≤ b.preferredMaxBytes →
    b.maxMessageCount = 1 ∨ totalSize r.pending + exactSize msg < 2 ^ 32
  | .cut => True

structure Filling (r : Receiver) : Prop where
  counted : r.pendingBatchSizeBytes = totalSize r.pending
  bytes : totalSize r.pending ≤ b.preferredMaxBytes
  length : r.pending.length < b.maxMessageCount

variable {b} {r : Receiver} {msg : Envelope}

@[simp] theorem totalSize_nil : totalSize [] = 0 := rfl

@[simp] theorem totalSize_concat (msgs : List Envelope) :
    totalSize (msgs ++ [msg]) = totalSize msgs + exactSize msg := by
  simp [totalSize]

theorem Filling.enqueue_bytes (hf : Filling b r) (msg : Envelope) :
    (r.enqueue msg).pendingBatchSizeBytes = (totalSize r.pending + exactSize msg) % 2 ^ 32 := by
  rw [Receiver.enqueue, hf.counted]
  exact Nat.add_mod_mod _ _ _

theorem call_ordered (r : Receiver) (msg : Envelope) : r.call b (.ordered msg) =
    if messageSizeBytes msg > b.preferredMaxBytes then
      if r.pending.length > 0 then ([r.pending, [msg]], newReceiverImpl) else ([[msg]], r)
    else if (r.enqueue msg).pendingBatchSizeBytes > b.preferredMaxBytes then
      if uint32 1 ≥ b.maxMessageCount then ([r.pending, [msg]], newReceiverImpl)
      else ([r.pending], newReceiverImpl.enqueue msg)
    else if uint32 (r.pending.length + 1) ≥ b.maxMessageCount then
      ([r.pending ++ [msg]], newReceiverImpl)
    else ([], r.enqueue msg) := by
  have hc : ∀ r : Receiver, r.cut.2 = newReceiverImpl := fun _ => rfl
  have hs : (r.enqueue msg).pendingBatchSizeBytes =
      uint32 (r.pendingBatchSizeBytes + messageSizeBytes msg) := rfl
  rw [hs, Receiver.call, Receiver.ordered]
  by_cases his : messageSizeBytes msg > b.preferredMaxBytes
  · simp only [if_pos his]
    split_ifs <;> rfl
  by_cases hov : uint32 (r.pendingBatchSizeBytes + messageSizeBytes msg) > b.preferredMaxBytes
  · simp only [if_neg his, if_pos hov, hc, Receiver.enqueue_pending]
    split_ifs <;> simp_all
  · simp only [if_neg his, if_neg hov, hc, Receiver.enqueue_pending]
    split_ifs <;> simp_all

section

variable (hcnt : 0 < b.maxMessageCount) (hcount32 : b.maxMessageCount < 2 ^ 32)
  (hbytes32 : b.preferredMaxBytes < 2 ^ 32)

include hcnt in
theorem filling_new : Filling b newReceiverImpl := ⟨rfl, Nat.zero_le _, hcnt⟩

include hcnt hcount32 hbytes32

theorem Filling.call (hf : Filling b r) (call : Call) :
    (WithinBounds b r call ↔ StaysBelow b r call) ∧
      (WithinBounds b r call → Filling b (r.call b call).2) := by
  have hn := filling_new hcnt
  have hl := hf.length
  have hby := hf.bytes
  have hbt : BatchFits b r.pending := ⟨hl.le, .inr hby⟩
  cases call with
  | cut => exact ⟨iff_of_true ⟨by simpa [Receiver.call] using hbt, rfl⟩ trivial, fun _ => hn⟩
  | ordered msg =>
    have hs := hf.enqueue_bytes msg
    have hw := hn.enqueue_bytes msg
    rw [newReceiverImpl_pending, totalSize_nil, Nat.zero_add] at hw
    have hsz : messageSizeBytes msg = exactSize msg % 2 ^ 32 := rfl
    have hone : BatchFits b [msg] := ⟨hcnt, .inl le_rfl⟩
    have hc : uint32 1 = 1 := rfl
    have hcn : uint32 (r.pending.length + 1) = r.pending.length + 1 := uint32_of_lt (by omega)
    unfold WithinBounds StaysBelow
    rw [call_ordered]
    split_ifs with hisolated hpend hover hfull hfull
    · exact ⟨iff_of_true ⟨by simpa using ⟨hbt, hone⟩, rfl⟩ (by omega), fun _ => hn⟩
    · exact ⟨iff_of_true ⟨by simpa using hone, hf.counted⟩ (by omega), fun _ => hf⟩
    · exact ⟨iff_of_true ⟨by simpa using ⟨hbt, hone⟩, rfl⟩ (by omega), fun _ => hn⟩
    · have hp : (newReceiverImpl.enqueue msg).pending = [msg] := rfl
      have htl : totalSize [msg] = exactSize msg := by simp [totalSize]
      simp only [mem_singleton, forall_eq, hbt, true_and, hp, htl]
      refine ⟨by omega, fun heq => ⟨?_, ?_, ?_⟩⟩
      · rw [hp, htl, heq]
      · rw [hp, htl]
        omega
      · rw [hp, length_singleton]
        omega
    · simp only [mem_singleton, forall_eq, BatchFits, length_append, length_singleton,
        totalSize_concat]
      exact ⟨⟨by omega, fun hlt => ⟨by omega, rfl⟩⟩, fun _ => hn⟩
    · simp only [not_mem_nil, false_imp_iff, implies_true, true_and, Receiver.enqueue_pending,
        totalSize_concat]
      refine ⟨by omega, fun heq => ⟨?_, ?_, ?_⟩⟩
      · simpa using heq
      · simp only [Receiver.enqueue_pending, totalSize_concat]
        omega
      · simp only [Receiver.enqueue_pending, length_append, length_singleton]
        omega

theorem Filling.throughout (hf : Filling b r) (calls : List Call) :
    r.Throughout b (WithinBounds b) calls ↔ r.Throughout b (StaysBelow b) calls := by
  induction calls generalizing r with
  | nil => exact Iff.rfl
  | cons call calls ih =>
    obtain ⟨hiff, hnx⟩ := hf.call hcnt hcount32 hbytes32 call
    rw [Receiver.Throughout, Receiver.Throughout, ← hiff]
    exact and_congr_right fun hwithin => ih (hnx hwithin)

end

def limitsOf (config : Channelconfig.BatchSize) : BatchSize :=
  ⟨config.maxMessageCount, config.preferredMaxBytes⟩

/-- The limits are `uint32` values. -/
theorem withinBounds_iff_staysBelow (config : Channelconfig.BatchSize)
    (hvalid : Channelconfig.validateBatchSize config = .ok ())
    (hcount32 : config.maxMessageCount < 2 ^ 32) (hbytes32 : config.preferredMaxBytes < 2 ^ 32)
    (calls : List Call) :
    newReceiverImpl.Throughout (limitsOf config) (WithinBounds (limitsOf config)) calls ↔
      newReceiverImpl.Throughout (limitsOf config) (StaysBelow (limitsOf config)) calls := by
  have hcnt : 0 < config.maxMessageCount := by
    unfold Channelconfig.validateBatchSize at hvalid
    split_ifs at hvalid with hzero
    exact Nat.pos_of_ne_zero hzero
  exact (filling_new hcnt).throughout hcnt hcount32 hbytes32 calls

/-- The second message does not fit into the batch of the first. -/
theorem withinBounds_iff_staysBelow_two :
    Channelconfig.validateBatchSize ⟨10, 99, 9⟩ = .ok () ∧
      newReceiverImpl.Throughout ⟨10, 9⟩ (WithinBounds ⟨10, 9⟩)
        [.ordered ⟨[1, 2, 3], [4, 5], []⟩, .ordered ⟨[6, 7, 8], [9, 10], []⟩, .cut] := by
  refine ⟨rfl, (withinBounds_iff_staysBelow ⟨10, 99, 9⟩ rfl (by norm_num) (by norm_num) _).mpr ?_⟩
  exact ⟨fun _ => .inr (by decide), fun _ => .inr (by decide), trivial, trivial⟩

theorem exists_exactSize (size : ℕ) : ∃ msg, exactSize msg = size :=
  ⟨⟨replicate size 0, [], []⟩, by simp [exactSize]⟩

/-- Two messages of `2 ^ 31` bytes are counted as none. -/
theorem largeMessages_not_withinBounds :
    ∃ msg, exactSize msg = 2 ^ 31 ∧ ¬ newReceiverImpl.Throughout ⟨10, 2 ^ 32 - 1⟩
      (WithinBounds ⟨10, 2 ^ 32 - 1⟩) [.ordered msg, .ordered msg] := by
  obtain ⟨msg, hsz⟩ := exists_exactSize (2 ^ 31)
  have hby : messageSizeBytes msg = 2 ^ 31 := (uint32_of_lt (hsz.trans_lt (by norm_num))).trans hsz
  refine ⟨msg, hsz, ?_⟩
  rw [(filling_new (by norm_num)).throughout (by norm_num) (by norm_num) (by norm_num)]
  rintro ⟨-, hscn, -⟩
  have hsum : (newReceiverImpl.enqueue msg).pendingBatchSizeBytes = 2 ^ 31 := by
    rw [Receiver.enqueue, hby]
    rfl
  rw [call_ordered, if_neg (by rw [hby]; norm_num), if_neg (by rw [hsum]; norm_num),
    if_neg (by decide)] at hscn
  simp [StaysBelow, hby, hsz, totalSize] at hscn

end FabricSequencer.BlockCutter
