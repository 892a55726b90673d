import FabricSequencer.BlockWriter
import FabricSequencer.MaintenanceMode

/-!
# The chain that a block writer leaves in its ledger

A block that was appended has the number and the previous hash that the ledger
asked for, so the chain itself does not depend on what the block writer
remembers.  The index of the last config block does: it is the one of the
block writer, which moves to a new block when the sequence of the
configuration in force has grown.  The invariant below ties the sequence to
the number of config blocks in the ledger.  It holds as long as the sequence
does not wrap around.
-/

namespace FabricSequencer.Blockwriter

open Channelconfig List Outcome World

variable {codec : WriterCodec}

/-- `index` is the latest config block with number at most `number`. -/
structure LatestConfig (ledger : Ledger) (number index : ℕ) : Prop where
  le : index ≤ number
  config : ∃ appended : Appended, ledger[index]? = some appended ∧ appended.config = true
  later : ∀ (other : ℕ) (appended : Appended), index < other →
    other ≤ number → ledger[other]? = some appended → appended.config = false

namespace LatestConfig

variable {ledger : Ledger}

theorem unique {num first second : ℕ} (hf : LatestConfig ledger num first)
    (hs : LatestConfig ledger num second) : first = second := by
  obtain ⟨firstBlock, hr, hfr⟩ := hf.config
  obtain ⟨secondBlock, hc, hsc⟩ := hs.config
  rcases Nat.lt_trichotomy first second with hlt | heq | hgt
  · have hpl := hf.later second secondBlock hlt hs.le hc
    simp [hsc] at hpl
  · exact heq
  · have hpl := hs.later first firstBlock hgt hf.le hr
    simp [hfr] at hpl

theorem lt_length {num index : ℕ} (hl : LatestConfig ledger num index) : index < ledger.length := by
  obtain ⟨_, hap, -⟩ := hl.config
  exact (List.getElem?_eq_some_iff.mp hap).1

theorem append_right {num index : ℕ} (hl : LatestConfig ledger num index)
    (hn : num < ledger.length) (ap : Appended) : LatestConfig (ledger ++ [ap]) num index where
  le := hl.le
  config := by
    rw [List.getElem?_append_left hl.lt_length]
    exact hl.config
  later := by
    intro other b ho hle hb
    rw [List.getElem?_append_left (by omega)] at hb
    exact hl.later other b ho hle hb

theorem append_plain {index : ℕ} (hl : LatestConfig ledger (ledger.length - 1) index) (b : Block) :
    LatestConfig (ledger ++ [⟨b, false⟩]) ledger.length index where
  le := hl.lt_length.le
  config := by
    rw [List.getElem?_append_left hl.lt_length]
    exact hl.config
  later := by
    intro other f ho hle hg
    rcases Nat.lt_or_ge other ledger.length with hlt | hge
    · rw [List.getElem?_append_left hlt] at hg
      exact hl.later other f ho (by omega) hg
    · rw [Nat.le_antisymm hle hge, List.getElem?_concat_length] at hg
      cases hg
      rfl

theorem append_config (ledger : Ledger) (b : Block) :
    LatestConfig (ledger ++ [⟨b, true⟩]) ledger.length ledger.length where
  le := le_rfl
  config := ⟨_, List.getElem?_concat_length, rfl⟩
  later := by
    intro _ _ _ _
    omega

end LatestConfig

def RecordsLastConfig (block : Block) (index : ℕ) : Prop :=
  ∃ consenterMetadata signature,
    block.metadata = some
      { signatures := some
          { value := some { lastConfig := some index
                            consenterMetadata := consenterMetadata }
            signature := signature }
        lastConfig := some index }

/-- What holds of the blocks of a ledger, the first one apart: that one is not
written by a block writer. -/
structure Chained (codec : WriterCodec) (ledger : Ledger) : Prop where
  number : ∀ (index : ℕ) (appended : Appended),
    ledger[index]? = some appended → appended.block.header.number = index
  previousHash : ∀ (index : ℕ) (previous appended : Appended),
    ledger[index]? = some previous → ledger[index + 1]? = some appended →
      appended.block.header.previousHash = blockHeaderHash codec previous.block.header
  dataHash : ∀ (index : ℕ) (appended : Appended),
    ledger[index + 1]? = some appended →
      appended.block.header.dataHash = computeBlockDataHash codec appended.block.data
  lastConfig : ∀ (index : ℕ) (appended : Appended),
    ledger[index + 1]? = some appended → ∃ latest,
      LatestConfig ledger (index + 1) latest ∧ RecordsLastConfig appended.block latest

variable {index : ℕ}

theorem getElem?_append_singleton {α : Type} {its : List α} {it f : α}
    (hg : (its ++ [it])[index]? = some f) :
    (index < its.length ∧ its[index]? = some f) ∨ (index = its.length ∧ f = it) := by
  rcases Nat.lt_trichotomy index its.length with hlt | rfl | hgt
  · rw [List.getElem?_append_left hlt] at hg
    exact .inl ⟨hlt, hg⟩
  · rw [List.getElem?_concat_length] at hg
    cases hg
    exact .inr ⟨rfl, rfl⟩
  · rw [List.getElem?_append_right hgt.le, List.getElem?_eq_none (by simp; omega)] at hg
    cases hg

structure Extends (codec : WriterCodec) (ledger : Ledger) (block : Block) : Prop where
  number : block.header.number = ledger.length
  previousHash : ∀ last, ledger.getLast? = some last →
    block.header.previousHash = blockHeaderHash codec last.block.header
  dataHash : block.header.dataHash = computeBlockDataHash codec block.data

variable {ledger : Ledger}

theorem Chained.append {ap : Appended} {latest : ℕ} (hc : Chained codec ledger)
    (hx : Extends codec ledger ap.block) (ht : LatestConfig (ledger ++ [ap]) ledger.length latest)
    (hrc : RecordsLastConfig ap.block latest) : Chained codec (ledger ++ [ap]) where
  number := by
    intro index f hg
    rcases getElem?_append_singleton hg with ⟨-, hl⟩ | ⟨rfl, rfl⟩
    · exact hc.number index f hl
    · exact hx.number
  previousHash := by
    intro index previous f hpr hg
    rcases getElem?_append_singleton hg with ⟨_, hl⟩ | ⟨hla, rfl⟩
    · rw [List.getElem?_append_left (by omega)] at hpr
      exact hc.previousHash index previous f hpr hl
    · rw [List.getElem?_append_left (by omega)] at hpr
      apply hx.previousHash previous
      rw [List.getLast?_eq_getElem?, ← hla, Nat.add_sub_cancel, hpr]
  dataHash := by
    intro index f hg
    rcases getElem?_append_singleton hg with ⟨-, hl⟩ | ⟨-, rfl⟩
    · exact hc.dataHash index f hl
    · exact hx.dataHash
  lastConfig := by
    intro index f hg
    rcases getElem?_append_singleton hg with ⟨hlt, hl⟩ | ⟨hla, rfl⟩
    · obtain ⟨oldLatest, hol, hor⟩ := hc.lastConfig index f hl
      exact ⟨oldLatest, hol.append_right hlt ap, hor⟩
    · exact ⟨latest, hla ▸ ht, hrc⟩

/-! ## What the functions of the block writer return -/

def Fresh (codec : WriterCodec) (block : Block) : Prop :=
  block.metadata = some { signatures := none, lastConfig := none } ∧
    block.header.dataHash = computeBlockDataHash codec block.data

theorem fresh_createNextBlock {lastBlock b : Block}
    {messages : List Envelope} (hc : createNextBlock codec lastBlock messages = .ok b) :
    Fresh codec b := by
  obtain ⟨_, -, hb⟩ := of_bind hc
  cases hb
  exact ⟨rfl, rfl⟩

variable {b : Block}

theorem append_eq_ok {ledger next : Ledger} {config : Bool}
    (hp : append codec ledger b config = .ok next) :
    b.header.number = ledger.length ∧
      (∀ la, ledger.getLast? = some la →
        b.header.previousHash = blockHeaderHash codec la.block.header) ∧
      next = ledger ++ [⟨b, config⟩] := by
  unfold append at hp
  split at hp
  · cases hp
  next hn =>
    split at hp
    next hla =>
      cases hp
      rw [List.getLast?_eq_none_iff] at hla
      subst hla
      exact ⟨not_not.mp hn, by simp, rfl⟩
    next hla =>
      split at hp
      · cases hp
      next hhs =>
        cases hp
        refine ⟨not_not.mp hn, ?_, rfl⟩
        intro _ ho
        rw [hla] at ho
        cases ho
        exact not_not.mp hhs

theorem commitBlock_eq_ok {bw next : BlockWriter} {ledger ap : Ledger}
    {config : Bool} {encodedMetadataValue : Bytes} (hfr : Fresh codec bw.lastBlock)
    (hc : commitBlock codec bw ledger config encodedMetadataValue = .ok (next, ap)) :
    ∃ b, Extends codec ledger b ∧ b.header = bw.lastBlock.header ∧ b.data = bw.lastBlock.data ∧
      RecordsLastConfig b bw.addLastConfig.lastConfigBlockNum ∧
      ap = ledger ++ [⟨b, config⟩] ∧
      next = { bw.addLastConfig with lastBlock := b, committing := none } := by
  unfold commitBlock at hc
  simp only [hfr.1] at hc
  obtain ⟨_, hsg, hc⟩ := of_bind hc
  obtain ⟨_, hp, hc⟩ := of_bind hc
  obtain ⟨_, -, hval⟩ := of_bind hsg
  cases hval
  rw [orPanic_eq_ok_iff, returned_eq_ok_iff] at hp
  obtain ⟨hn, hhs, rfl⟩ := append_eq_ok hp
  cases hc
  exact ⟨_, ⟨hn, hhs, hfr.2⟩, rfl, rfl, ⟨_, _, rfl⟩, rfl, rfl⟩

theorem getLastConfigIndexFromBlock_of_records (hrc : RecordsLastConfig b index) :
    getLastConfigIndexFromBlock b = .ok index := by
  obtain ⟨_, _, hmt⟩ := hrc
  simp [getLastConfigIndexFromBlock, hmt]

theorem decodeHeader_eq_ok_of_data {b other : Block}
    {noEnvelope noPayload noHeader noChannelHeader : String}
    (noEnvelope' noPayload' noHeader' noChannelHeader' : String)
    {decoded : Multichannel.HeaderType × GoString × Bytes} (hdt : other.data = b.data)
    (hd : decodeHeader codec noEnvelope noPayload noHeader noChannelHeader b = .ok decoded) :
    decodeHeader codec noEnvelope' noPayload' noHeader' noChannelHeader' other = .ok decoded := by
  unfold decodeHeader at hd ⊢
  obtain ⟨_, hc, hd⟩ := of_bind hd
  obtain ⟨pl, hp, hd⟩ := of_bind hd
  have hc' : extractEnvelope codec other = extractEnvelope codec b := by
    rw [extractEnvelope, extractEnvelope, hdt]
  rw [orPanic_eq_ok_iff, ← hc'] at hc
  rw [orPanic_eq_ok_iff] at hp
  refine bind_of_ok (orPanic_eq_ok_iff.mpr hc) ?_
  refine bind_of_ok (orPanic_eq_ok_iff.mpr hp) ?_
  cases hh : pl.header with
  | none => simp [hh] at hd
  | some =>
    simp only [hh] at hd
    obtain ⟨_, hch, hd⟩ := of_bind hd
    rw [orPanic_eq_ok_iff] at hch
    exact bind_of_ok (orPanic_eq_ok_iff.mpr hch) hd

def HasSequence (codec : WriterCodec) (block : Block) (sequence : ℕ) : Prop :=
  ∀ bundle, newLedgerResources codec block = .ok bundle → bundle.configtxManager.sequence = sequence

theorem validate_eq_ok {configCodec : ConfigCodec} {vi : ValidatorImpl}
    {configEnv : Multichannel.ConfigEnvelope Config} {config : Config}
    (hc : configEnv.config = some config) (hok : vi.validate configCodec configEnv = .ok ()) :
    config.sequence = uint64 (vi.sequence + 1) := by
  simp only [ValidatorImpl.validate, hc] at hok
  split at hok
  · cases hok
  next hs => exact not_not.mp hs

variable {encodedMetadataValue metadata : Bytes}

/-- The sequence of the configuration that `WriteConfigBlock` puts in force.
It is also the one that a later process reads from the block. -/
theorem configBundle_eq_ok {bl next : Bundle}
    (hnx : configBundle codec bl b encodedMetadataValue = .ok (next, metadata)) :
    next.configtxManager.sequence = uint64 (bl.configtxManager.sequence + 1) ∧
      ∀ other, other.data = b.data → HasSequence codec other next.configtxManager.sequence := by
  obtain ⟨⟨_, _, _⟩, hdecode, hnx⟩ := of_bind hnx
  dsimp only at hnx
  split at hnx
  · cases hnx
  · obtain ⟨_, he, hnx⟩ := of_bind hnx
    obtain ⟨_, hok, hnx⟩ := of_bind hnx
    obtain ⟨created, hr, hnx⟩ := of_bind hnx
    rw [orPanic_eq_ok_iff] at he hok hr
    obtain ⟨_, -, hc, -, -, -, -, hs⟩ := newBundle_eq_ok hr
    have heq : created = next := by
      split at hnx
      · cases hnx
      · cases hnx
      · obtain ⟨_, -, hnx⟩ := of_bind hnx
        cases hnx
        rfl
    subst heq
    refine ⟨hs.trans (validate_eq_ok hc hok), ?_⟩
    intro _ hdt _ hrd
    obtain ⟨_, hd, hrd⟩ := of_bind hrd
    rw [decodeHeader_eq_ok_of_data _ _ _ _ hdt hdecode] at hd
    cases hd
    obtain ⟨_, hn, hrd⟩ := of_bind hrd
    rw [orPanic_eq_ok_iff, he] at hn
    cases hn
    obtain ⟨_, hb, hrd⟩ := of_bind hrd
    rw [orPanic_eq_ok_iff, hr] at hb
    cases hb
    obtain ⟨_, -, hrd⟩ := of_bind hrd
    split at hrd
    · cases hrd
    · cases hrd
      rfl
  · cases hnx

def configBlocks (ledger : Ledger) : ℕ := ledger.countP Appended.config

def genesisSequence (codec : WriterCodec) (genesis : Block) : ℕ :=
  match newLedgerResources codec genesis with
  | .error _ => 0
  | .ok bundle => bundle.configtxManager.sequence

section Invariant

variable (codec) (genesis : Block)

section

variable (ledger : Ledger)

def AtSequence (sequence : ℕ) : Prop :=
  sequence + 1 = genesisSequence codec genesis + configBlocks ledger

structure LedgerFits : Prop where
  chained : Chained codec ledger
  latest : ∃ index appended sequence,
    LatestConfig ledger (ledger.length - 1) index ∧ ledger[index]? = some appended ∧
      HasSequence codec appended.block sequence ∧
      AtSequence codec genesis ledger sequence

structure WriterFits (writer : BlockWriter) : Prop where
  lastConfigSeq : writer.lastConfigSeq = writer.sequence
  sequence : AtSequence codec genesis ledger writer.sequence
  lastConfigBlockNum : LatestConfig ledger (ledger.length - 1) writer.lastConfigBlockNum

structure ProcessFits (process : Process) : Prop where
  writer : WriterFits codec genesis ledger process.writer
  pending : process.writer.committing.isSome = true → Fresh codec process.writer.lastBlock
  created : ∀ block ∈ process.created, Fresh codec block

end

structure WorldFits (world : World) : Prop where
  ledger : LedgerFits codec genesis world.ledger
  process : ∀ process, world.process = some process → ProcessFits codec genesis world.ledger process

end Invariant

variable {genesis : Block}

theorem addLastConfig_of_eq {bw : BlockWriter}
    (hs : bw.lastConfigSeq = bw.sequence) : bw.addLastConfig = bw := by
  simp [BlockWriter.addLastConfig, hs]

theorem configBlocks_append (ledger : Ledger) (ap : Appended) :
    configBlocks (ledger ++ [ap]) = configBlocks ledger + (if ap.config then 1 else 0) := by
  simp [configBlocks, countP_append, countP_singleton]

variable {w : World}

theorem WorldFits.fail (hft : WorldFits codec genesis w) : WorldFits codec genesis w.fail where
  ledger := hft.ledger
  process := by
    intro _ hpc
    cases hpc

theorem LedgerFits.append_plain (hd : LedgerFits codec genesis ledger) (hx : Extends codec ledger b)
    (hl : LatestConfig ledger (ledger.length - 1) index) (hrc : RecordsLastConfig b index) :
    LedgerFits codec genesis (ledger ++ [⟨b, false⟩]) := by
  have hnx : LatestConfig (ledger ++ [⟨b, false⟩]) ledger.length index := hl.append_plain b
  obtain ⟨f, ap, sequence, hg, hap, hs, hat⟩ := hd.latest
  obtain rfl := hg.unique hl
  refine ⟨hd.chained.append hx hnx hrc, f, ap, sequence, ?_, ?_, hs, ?_⟩
  · simpa using hnx
  · rw [List.getElem?_append_left hl.lt_length, hap]
  · simpa [AtSequence, configBlocks_append] using hat

theorem LedgerFits.append_config {sequence : ℕ} (hl : LedgerFits codec genesis ledger)
    (hx : Extends codec ledger b) (hrc : RecordsLastConfig b ledger.length)
    (hs : HasSequence codec b sequence)
    (hat : AtSequence codec genesis (ledger ++ [⟨b, true⟩]) sequence) :
    LedgerFits codec genesis (ledger ++ [⟨b, true⟩]) := by
  have hnx : LatestConfig (ledger ++ [⟨b, true⟩]) ledger.length
      ledger.length := LatestConfig.append_config ledger b
  refine ⟨hl.chained.append hx hnx hrc, ledger.length, ⟨b, true⟩, sequence, ?_, ?_, hs, hat⟩
  · simpa using hnx
  · exact List.getElem?_concat_length

/-! ## One step -/

variable {writer : BlockWriter}

theorem writerFits_startWriter (hd : LedgerFits codec genesis ledger)
    (hsr : startWriter codec ledger = .ok writer) :
    WriterFits codec genesis ledger writer ∧ writer.committing = none := by
  obtain ⟨latest, _, _, ht, hap, hs, hat⟩ := hd.latest
  unfold startWriter at hsr
  cases hla : ledger.getLast? with
  | none => simp [hla] at hsr
  | some la =>
    simp only [hla] at hsr
    obtain ⟨index, hi, hsr⟩ := of_bind hsr
    rw [orPanic_eq_ok_iff] at hi
    cases hc : ledger[index]? with
    | none => simp [hc] at hsr
    | some =>
      simp only [hc] at hsr
      obtain ⟨bl, hb, hsr⟩ := of_bind hsr
      obtain ⟨lastConfigBlockNum, hn, hw⟩ := of_bind hsr
      cases hw
      rw [List.getLast?_eq_getElem?] at hla
      have hl := (List.getElem?_eq_some_iff.mp hla).1
      have hm := hd.chained.number _ _ hla
      -- Both readers of the la b find the latest config b.
      have hbo : index = latest ∧ lastConfigBlockNum = latest := by
        rcases Nat.eq_zero_or_pos (ledger.length - 1) with _ | _
        · rw [if_neg (by omega)] at hn
          cases hn
          have hbn := (List.getElem?_eq_some_iff.mp hc).1
          have hle := ht.le
          omega
        obtain ⟨_, hg, hrc⟩ := hd.chained.lastConfig (ledger.length - 2) la
          (by rwa [show ledger.length - 2 + 1 = ledger.length - 1 by omega])
        rw [show ledger.length - 2 + 1 = ledger.length - 1 by omega] at hg
        obtain rfl := hg.unique ht
        rw [getLastConfigIndexFromBlock_of_records hrc] at hi
        cases hi
        rw [if_pos (by omega), orPanic_eq_ok_iff, getLastConfigIndexFromBlock_of_records hrc] at hn
        cases hn
        exact ⟨rfl, rfl⟩
      obtain ⟨rfl, rfl⟩ := hbo
      rw [hap] at hc
      cases hc
      have hfr := hs bl hb
      refine ⟨⟨rfl, ?_, ht⟩, rfl⟩
      rw [BlockWriter.sequence, hfr]
      exact hat

theorem worldFits_start (hl : LedgerFits codec genesis w.ledger) :
    WorldFits codec genesis (w.start codec) := by
  unfold start
  split
  · exact ⟨hl, fun process hpc => by cases hpc⟩
  next hsr =>
    obtain ⟨hw, hid⟩ := writerFits_startWriter hl hsr
    refine ⟨hl, ?_⟩
    intro _ hpc
    cases hpc
    exact ⟨hw, by simp [hid], by simp⟩

theorem worldFits_commit_plain {created : List Block} {encodedMetadataValue : Bytes}
    (hft : WorldFits codec genesis w) (hw : WriterFits codec genesis w.ledger writer)
    (hfr : Fresh codec writer.lastBlock) (hr : ∀ b ∈ created, Fresh codec b) :
    WorldFits codec genesis (w.commit codec writer created false encodedMetadataValue) := by
  unfold commit
  split
  · exact hft.fail
  next hc =>
    obtain ⟨b, hx, -, -, hrc, rfl, rfl⟩ := commitBlock_eq_ok hfr hc
    rw [addLastConfig_of_eq hw.lastConfigSeq] at hrc ⊢
    refine ⟨hft.ledger.append_plain hx hw.lastConfigBlockNum hrc, ?_⟩
    intro _ hpc
    cases hpc
    refine ⟨⟨hw.lastConfigSeq, ?_, ?_⟩, by simp, hr⟩
    · show writer.sequence + 1 = _
      rw [configBlocks_append]
      exact hw.sequence
    · simpa using hw.lastConfigBlockNum.append_plain b

/-- `WriteConfigBlock` puts the next sequence in force and appends its block,
provided that the sequence does not wrap around. -/
theorem worldFits_commit_config {bl : Bundle} {created : List Block}
    (hft : WorldFits codec genesis w) (hw : WriterFits codec genesis w.ledger writer)
    (hfr : Fresh codec b) (hr : ∀ other ∈ created, Fresh codec other)
    (hb : configBundle codec writer.bundle b encodedMetadataValue = .ok (bl, metadata))
    (hbn : genesisSequence codec genesis + configBlocks
      (w.commit codec (writer.update bl b) created true metadata).ledger ≤ 2 ^ 64) :
    WorldFits codec genesis (w.commit codec (writer.update bl b) created true metadata) := by
  unfold commit at hbn ⊢
  split
  · exact hft.fail
  next hc =>
    simp only [hc] at hbn
    obtain ⟨wr, hx, hh, hdt, hrc, rfl, rfl⟩ := commitBlock_eq_ok hfr hc
    obtain ⟨hs, hrd⟩ := configBundle_eq_ok hb
    have hd : writer.bundle.configtxManager.sequence + 1 =
        genesisSequence codec genesis + configBlocks w.ledger :=
      hw.sequence
    simp only [configBlocks_append, if_true] at hbn
    rw [uint64_of_lt (by omega)] at hs
    have hl : writer.lastConfigSeq = writer.bundle.configtxManager.sequence := hw.lastConfigSeq
    have hgr : (writer.update bl b).sequence > (writer.update bl b).lastConfigSeq := by
      show bl.configtxManager.sequence > writer.lastConfigSeq
      omega
    have hn : b.header.number = w.ledger.length := by
      rw [← hx.number, hh]
      rfl
    have ha : (writer.update bl b).addLastConfig =
        { writer.update bl b with
          lastConfigBlockNum := w.ledger.length
          lastConfigSeq := (writer.update bl b).sequence } := by
      rw [BlockWriter.addLastConfig, if_pos hgr]
      simp only [BlockWriter.update, hn]
    have hat : AtSequence codec genesis (w.ledger ++ [⟨wr, true⟩]) bl.configtxManager.sequence := by
      simp only [AtSequence, configBlocks_append, if_true]
      omega
    rw [ha] at hrc ⊢
    refine ⟨hft.ledger.append_config hx hrc (hrd wr hdt) hat, ?_⟩
    intro _ hpc
    cases hpc
    refine ⟨⟨rfl, hat, ?_⟩, by simp, hr⟩
    simpa using LatestConfig.append_config w.ledger wr

theorem worldFits_step {ev : Event} (hft : WorldFits codec genesis w)
    (hbn : genesisSequence codec genesis + configBlocks (w.step codec ev).ledger ≤ 2 ^ 64) :
    WorldFits codec genesis (w.step codec ev) := by
  cases hpc : w.process with
  | none =>
    cases ev with
    | restart =>
      simp only [World.step, hpc]
      exact worldFits_start hft.ledger
    | createNextBlock | writeBlock | commit | writeConfigBlock =>
      simp only [World.step, hpc]
      exact hft
  | some process =>
    simp only [World.step, hpc] at hbn ⊢
    obtain ⟨hw, hpn, hc⟩ := hft.process process hpc
    cases ev with
    | createNextBlock =>
      simp only [handle]
      split
      · exact hft.fail
      next hl =>
        refine ⟨hft.ledger, ?_⟩
        intro _ hnx
        cases hnx
        refine ⟨hw, hpn, ?_⟩
        simp only [mem_append, mem_singleton]
        rintro other (hd | rfl)
        · exact hc other hd
        · exact fresh_createNextBlock hl
    | writeBlock =>
      simp only [handle]
      split
      next b _ hqu _ =>
        rw [hqu] at hc
        refine ⟨hft.ledger, ?_⟩
        intro _ hnx
        cases hnx
        exact ⟨{ hw with }, fun _ => hc b mem_cons_self,
          fun other ho => hc other (mem_cons_of_mem b ho)⟩
      · exact hft
    | commit =>
      simp only [handle]
      split
      · exact hft
      next hcm =>
        exact worldFits_commit_plain hft hw (hpn (by simp [hcm])) hc
    | writeConfigBlock =>
      simp only [handle] at hbn ⊢
      split
      next b _ hqu hid =>
        rw [hqu] at hc
        simp only [hqu, hid] at hbn
        split
        · exact hft.fail
        next hb =>
          simp only [hb] at hbn
          exact worldFits_commit_config hft hw (hc b mem_cons_self)
            (fun other ho => hc other (mem_cons_of_mem b ho)) hb hbn
      · exact hft
    | restart => exact worldFits_start hft.ledger

section

variable (w : World)

theorem ledger_prefix_commit (writer : BlockWriter)
    (created : List Block) (config : Bool) (encodedMetadataValue : Bytes) :
    w.ledger <+: (w.commit codec writer created config encodedMetadataValue).ledger := by
  unfold commit
  split
  · exact prefix_rfl
  next hc =>
    unfold commitBlock at hc
    dsimp only at hc
    split at hc
    · cases hc
    obtain ⟨_, -, hc⟩ := of_bind hc
    obtain ⟨_, hp, hc⟩ := of_bind hc
    rw [orPanic_eq_ok_iff, returned_eq_ok_iff] at hp
    obtain ⟨-, -, rfl⟩ := append_eq_ok hp
    cases hc
    exact prefix_append _ _

theorem ledger_start : (w.start codec).ledger = w.ledger := by
  unfold start
  split <;> rfl

theorem ledger_prefix_handle (process : Process) (ev : Event) :
    w.ledger <+: (w.handle codec process ev).ledger := by
  cases ev with
  | createNextBlock | writeBlock =>
    simp only [handle]
    split <;> exact prefix_rfl
  | commit =>
    simp only [handle]
    split
    · exact prefix_rfl
    · exact ledger_prefix_commit _ _ _ _ _
  | writeConfigBlock =>
    simp only [handle]
    split
    · split
      · exact prefix_rfl
      · exact ledger_prefix_commit _ _ _ _ _
    · exact prefix_rfl
  | restart =>
    simp only [handle]
    rw [ledger_start]

theorem ledger_prefix_step (ev : Event) : w.ledger <+: (w.step codec ev).ledger := by
  unfold World.step
  split
  · rw [ledger_start]
  · exact prefix_rfl
  · exact ledger_prefix_handle _ _ _

theorem ledger_prefix_run (evs : List Event) : w.ledger <+: (w.run codec evs).ledger := by
  induction evs generalizing w with
  | nil => exact prefix_rfl
  | cons ev _ ih => exact (ledger_prefix_step w ev).trans (ih _)

end

theorem configBlocks_le {ledger later : Ledger} (hex : ledger <+: later) :
    configBlocks ledger ≤ configBlocks later :=
  hex.sublist.countP_le

theorem worldFits_run (evs : List Event) (hft : WorldFits codec genesis w)
    (hbn : genesisSequence codec genesis + configBlocks (w.run codec evs).ledger ≤ 2 ^ 64) :
    WorldFits codec genesis (w.run codec evs) := by
  induction evs generalizing w with
  | nil => exact hft
  | cons ev evs ih =>
    have hmn : configBlocks (w.step codec ev).ledger ≤
        configBlocks ((w.step codec ev).run codec evs).ledger :=
      configBlocks_le (ledger_prefix_run _ evs)
    have hr : genesisSequence codec genesis + configBlocks
        ((w.step codec ev).run codec evs).ledger ≤ 2 ^ 64 := hbn
    exact ih (worldFits_step hft (by omega)) hr

def World.created (genesis : Block) : World :=
  { ledger := [⟨genesis, true⟩], process := none }

theorem worldFits_created (hn : genesis.header.number = 0) :
    WorldFits codec genesis (created genesis) where
  ledger :=
    { chained :=
        { number := by
            intro index _ hg
            cases index with
            | zero =>
              cases hg
              exact hn
            | succ => cases hg
          previousHash := by
            intro _ _ _ _ hg
            cases hg
          dataHash := by
            intro _ _ hg
            cases hg
          lastConfig := by
            intro _ _ hg
            cases hg }
      latest := by
        refine ⟨0, ⟨genesis, true⟩, genesisSequence codec genesis,
          LatestConfig.append_config [] genesis, rfl, ?_, ?_⟩
        · intro _ hb
          rw [genesisSequence, hb]
        · simp [AtSequence, created, configBlocks] }
  process := by
    intro _ hpc
    cases hpc

/-- Every run leaves a chain with the right references to config blocks, if
the sequence of the configuration does not wrap around. -/
theorem chained_run (codec : WriterCodec) (genesis : Block)
    (events : List Event) (hgenesis : genesis.header.number = 0)
    (hbound : genesisSequence codec genesis + configBlocks
      ((created genesis).run codec events).ledger ≤ 2 ^ 64) :
    Chained codec ((created genesis).run codec events).ledger :=
  (worldFits_run events (worldFits_created hgenesis) hbound).ledger.chained

def sampleUpdateCodec : ConfigCodec := sampleCodec (maintenanceUpdate SortedMap.empty)

def sequenceSample (sequence : ℕ) : Config :=
  { ordererSample with sequence := sequence }

def proposedSample (sequence : ℕ) : Option (Multichannel.ConfigEnvelope Config) := do
  let bundle ← (newBundle sampleChannelCodec (ascii "ch") (some (sequenceSample sequence))).toOption
  (bundle.configtxManager.proposeConfigUpdate sampleUpdateCodec emptyEnvelope).toOption

/-- The payload of an envelope is its data.  The empty one holds the first
configuration, any other one the configuration that follows. -/
def sampleWriterCodec (sequence : ℕ) : WriterCodec where
  marshalEnvelope envelope := .ok envelope.payload
  unmarshalEnvelope bytes := .ok { payload := bytes, signature := [] }
  unmarshalPayload bytes := .ok { header := some { channelHeader := none }, data := bytes }
  unmarshalChannelHeader _ := .ok (.config, ascii "ch")
  unmarshalConfigEnvelope data :=
    if data = [] then
      .ok { config := some (sequenceSample sequence), lastUpdate := none }
    else
      match proposedSample sequence with
      | none => .error "invalid"
      | some configEnvelope => .ok configEnvelope
  configCodec := sampleUpdateCodec
  channelCodec := sampleChannelCodec
  checkResources _ := .ok ()
  sha256 bytes := bytes
  blockHeaderBytes header := header.dataHash ++ [0]
  sign _ _ := .ok []

def sampleGenesis : Block where
  header := { number := 0, previousHash := [], dataHash := [] }
  data := [[]]
  metadata := some { signatures := none, lastConfig := none }

def sampleEvents : List Event :=
  [.restart, .createNextBlock [{ payload := [1], signature := [] }], .writeConfigBlock []]

def sampleLongEvents : List Event :=
  [.restart, .createNextBlock [emptyEnvelope], .writeBlock [7], .commit,
    .createNextBlock [{ payload := [1], signature := [] }],
    .writeConfigBlock [7], .restart, .createNextBlock [emptyEnvelope],
    .writeBlock [7], .commit]

theorem chained_run_sample :
    ((created sampleGenesis).run (sampleWriterCodec 3)
        sampleLongEvents).ledger.map Appended.config =
        [true, false, true, false] ∧
      Chained (sampleWriterCodec 3) ((created sampleGenesis).run
        (sampleWriterCodec 3) sampleLongEvents).ledger := by
  have hcnf : ((created sampleGenesis).run (sampleWriterCodec 3)
      sampleLongEvents).ledger.map Appended.config = [true, false, true, false] := by
    decide +kernel
  refine ⟨hcnf, chained_run _ _ _ rfl ?_⟩
  decide +kernel

/-- With the last sequence in the first block the next one is zero, and the
config block refers to the first block. -/
theorem not_chained_wrapped_sample :
    ¬ Chained (sampleWriterCodec (2 ^ 64 - 1))
      ((created sampleGenesis).run (sampleWriterCodec (2 ^ 64 - 1)) sampleEvents).ledger := by
  have hrun : ((created sampleGenesis).run
      (sampleWriterCodec (2 ^ 64 - 1)) sampleEvents).ledger[1]?.map
        (fun ap : Appended => (ap.config, getLastConfigIndexFromBlock ap.block)) =
          some (true, .ok 0) := by
    decide +kernel
  obtain ⟨ap, hap, hres⟩ := Option.map_eq_some_iff.mp hrun
  injection hres with hcfg hidx
  intro hchn
  obtain ⟨_, hlts, hrc⟩ := hchn.lastConfig 0 ap hap
  rw [getLastConfigIndexFromBlock_of_records hrc] at hidx
  cases hidx
  have hpl := hlts.later 1 ap Nat.zero_lt_one le_rfl hap
  rw [hcfg] at hpl
  cases hpl

end FabricSequencer.Blockwriter
