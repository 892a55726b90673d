import FabricSequencer.GoTypes
import FabricSequencer.SortedMap

/-!
# The cache of recent blocks

The cache holds the blocks that were added last, up to a number of bytes.  The
oldest block is found from the highest number and the number of blocks.
-/

namespace FabricSequencer.Blkstorage

open List

structure CachedBlock (B : Type) where
  block : B
  blockSize : ℤ

structure Cache (B : Type) where
  disabled : Bool
  cache : SortedMap ℕ (CachedBlock B)
  sizeBytes : ℤ
  maxSeq : ℕ
  maxSizeBytes : ℤ

variable {B : Type}

def newCache (maxSizeBytes : ℤ) : Cache B :=
  ⟨maxSizeBytes = 0, SortedMap.empty, 0, 0, maxSizeBytes⟩

/-- A sum as `int` holds it. -/
def wrapInt (n : ℤ) : ℤ := Int.bmod n (2 ^ 64)

namespace Cache

def evictOldestCachedBlock (c : Cache B) : Outcome (Cache B) :=
  let cachedItemCount := c.cache.entries.length
  let evictedIndex := uint64 (c.maxSeq + (2 ^ 64 - uint64 cachedItemCount) + 1)
  match c.cache.get evictedIndex with
  | none =>
    .error (.panic ("programming error: last stored block sequence is " ++ toString c.maxSeq ++
      " and cached block count is " ++ toString cachedItemCount ++ " but index to be evicted " ++
      toString evictedIndex ++ " was not found"))
  | some evictedBlock =>
    .ok { c with
      cache := c.cache.erase evictedIndex
      sizeBytes := wrapInt (c.sizeBytes - evictedBlock.blockSize) }

/-- The eviction loop of `put`.  Every turn removes a block or panics. -/
def evict : ℕ → Cache B → Outcome (Cache B)
  | 0, c => .ok c
  | turns + 1, c =>
    if c.sizeBytes > c.maxSizeBytes then c.evictOldestCachedBlock >>= evict turns else .ok c

def put (c : Cache B) (seq : ℕ) (added : CachedBlock B) : Outcome (Cache B) :=
  if c.disabled ∨ c.maxSeq > seq then .ok c
  else if uint64 (c.maxSeq + 1) < seq ∧ c.maxSeq ≠ 0 then
    .error (.panic ("detected out of order block insertion: attempted to insert block number " ++
      toString seq ++ " but highest block is " ++ toString c.maxSeq))
  else if c.maxSeq = seq ∧ c.maxSeq ≠ 0 then
    .error (.panic ("detected insertion of the same block (" ++ toString seq ++ ") twice"))
  else
    let filled := c.cache.insert seq added
    evict (filled.entries.length + 1)
      { c with cache := filled, maxSeq := seq, sizeBytes := wrapInt (c.sizeBytes + added.blockSize) }

end Cache

/-- Consecutive blocks from the number `first` on, as the map holds them. -/
def numbered (first : ℕ) (blocks : List (CachedBlock B)) : List (ℕ × CachedBlock B) :=
  (range' first blocks.length).zip blocks

def putAll (maxSizeBytes : ℤ) (first : ℕ) (blocks : List (CachedBlock B)) : Outcome (Cache B) :=
  (numbered first blocks).foldlM (fun c added => c.put added.1 added.2) (newCache maxSizeBytes)

def total (blocks : List (CachedBlock B)) : ℤ := (blocks.map CachedBlock.blockSize).sum

/-- The longest end of the list that has at most `limit` bytes. -/
def fitting (limit : ℤ) : List (CachedBlock B) → List (CachedBlock B)
  | [] => []
  | b :: rest => if total (b :: rest) ≤ limit then b :: rest else fitting limit rest

/-- What is held when a block arrives, and the block, stay within `int`. -/
def NoOverflow (limit : ℤ) (blocks : List (CachedBlock B)) : Prop :=
  ∀ i (hi : i < blocks.length), total (fitting limit (blocks.take i)) + blocks[i].blockSize < 2 ^ 63

variable {limit : ℤ} {b : CachedBlock B} {blocks kept s : List (CachedBlock B)}

@[simp] theorem total_cons : total (b :: blocks) = b.blockSize + total blocks := by
  simp [total]

@[simp] theorem total_concat : total (blocks ++ [b]) = total blocks + b.blockSize := by
  simp [total]

theorem fitting_suffix : fitting limit blocks <:+ blocks := by
  induction blocks with
  | nil => exact suffix_rfl
  | cons b tl ih =>
    rw [fitting]
    split_ifs
    · exact suffix_rfl
    · exact ih.trans (suffix_cons b tl)

theorem total_fitting_le (hlimit : 0 ≤ limit) : total (fitting limit blocks) ≤ limit := by
  induction blocks with
  | nil => exact hlimit
  | cons b tl ih =>
    rw [fitting]
    split_ifs with hfits
    · exact hfits
    · exact ih

theorem suffix_fitting (hsuffix : s <:+ blocks) (hfits : total s ≤ limit) :
    s <:+ fitting limit blocks := by
  induction blocks with
  | nil => exact hsuffix
  | cons b tl ih =>
    rw [fitting]
    split_ifs with hall
    · exact hsuffix
    · rcases suffix_cons_iff.mp hsuffix with rfl | hsuffix
      · exact absurd hfits hall
      · exact ih hsuffix

theorem fitting_concat (hsize : 0 ≤ b.blockSize) :
    fitting limit (fitting limit blocks ++ [b]) = fitting limit (blocks ++ [b]) := by
  induction blocks with
  | nil => rfl
  | cons a tl ih =>
    rw [fitting]
    split_ifs with hfits
    · rfl
    · have hmore : ¬ total (a :: (tl ++ [b])) ≤ limit := by
        simp only [total_cons, total_concat] at hfits ⊢
        omega
      rw [ih, cons_append, fitting, if_neg hmore]

theorem insertEntry_concat {K V : Type} [LinearOrder K] {key : K} {v : V} {es : List (K × V)}
    (hbelow : ∀ e ∈ es, e.1 < key) : SortedMap.insertEntry key v es = es ++ [(key, v)] := by
  induction es with
  | nil => rfl
  | cons e es ih =>
    rw [forall_mem_cons] at hbelow
    rw [SortedMap.insertEntry, if_neg hbelow.1.not_gt, if_neg hbelow.1.ne', ih hbelow.2,
      cons_append]

theorem numbered_cons (first : ℕ) :
    numbered first (b :: blocks) = (first, b) :: numbered (first + 1) blocks := by
  rw [numbered, length_cons, range'_succ, zip_cons_cons, numbered]

theorem numbered_concat (first : ℕ) :
    numbered first (blocks ++ [b]) = numbered first blocks ++ [(first + blocks.length, b)] := by
  rw [numbered, length_append, length_singleton, range'_concat, zip_append length_range', one_mul]
  rfl

theorem wrapInt_of_lt {n : ℤ} (hnonneg : 0 ≤ n) (hlt : n < 2 ^ 63) : wrapInt n = n :=
  Int.bmod_eq_of_le (by omega) (by omega)

/-- The cache holds `kept`, which ends before the number `next`. -/
structure Keeps (c : Cache B) (limit : ℤ) (next : ℕ) (kept : List (CachedBlock B)) : Prop where
  enabled : c.disabled = false
  maxSizeBytes : c.maxSizeBytes = limit
  length_le : kept.length ≤ next
  entries : c.cache.entries = numbered (next - kept.length) kept
  sizeBytes : c.sizeBytes = total kept
  maxSeq : c.maxSeq + 1 = next ∨ c.maxSeq = 0 ∧ kept = []

variable {c : Cache B} {first next : ℕ}

theorem total_nonneg (hsizes : ∀ b ∈ kept, 0 ≤ b.blockSize) : 0 ≤ total kept := by
  apply sum_nonneg
  simpa using hsizes

theorem evictOldest_keeps (hkeeps : Keeps c limit next (b :: kept)) (hnext : next ≤ 2 ^ 64)
    (hsizes : ∀ b ∈ kept, 0 ≤ b.blockSize) (hint : total kept < 2 ^ 63) :
    ∃ c', c.evictOldestCachedBlock = .ok c' ∧ Keeps c' limit next kept ∧ c'.maxSeq = c.maxSeq := by
  obtain ⟨henabled, hlim, hlength, hentries, hsize, hmaxSeq⟩ := hkeeps
  rw [numbered_cons] at hentries
  rw [length_cons] at hlength hentries
  have hmaxSeq : c.maxSeq + 1 = next := hmaxSeq.resolve_right (by simp)
  have hindex : uint64 (c.maxSeq + (2 ^ 64 - uint64 c.cache.entries.length) + 1) =
      next - (kept.length + 1) := by
    have hcount : c.cache.entries.length = kept.length + 1 := by simp [hentries, numbered]
    rw [hcount]
    simp only [uint64]
    omega
  have holdest : c.cache.get (next - (kept.length + 1)) = some b := by
    rw [SortedMap.get_eq_some_iff, hentries]
    exact mem_cons_self
  have hsorted := c.cache.sorted
  rw [hentries, pairwise_cons] at hsorted
  refine ⟨{ c with
    cache := c.cache.erase (next - (kept.length + 1))
    sizeBytes := total kept }, ?_, ?_, rfl⟩
  · have hrest : wrapInt (c.sizeBytes - b.blockSize) = total kept := by
      rw [hsize, total_cons, add_sub_cancel_left, wrapInt_of_lt (total_nonneg hsizes) hint]
    rw [Cache.evictOldestCachedBlock, hindex, holdest, ← hrest]
  · refine ⟨henabled, hlim, by omega, ?_, rfl, .inl hmaxSeq⟩
    change c.cache.entries.filter _ = _
    rw [hentries, filter_cons_of_neg (by simp), filter_eq_self.mpr,
      show next - (kept.length + 1) + 1 = next - kept.length by omega]
    intro e he
    simpa using (hsorted.1 e he).ne'

theorem evict_keeps (hkeeps : Keeps c limit next kept) (hmaxSeq : c.maxSeq + 1 = next)
    (hnext : next ≤ 2 ^ 64) (hlimit : 0 ≤ limit) (hsizes : ∀ b ∈ kept, 0 ≤ b.blockSize)
    (hint : total kept < 2 ^ 63) {turns : ℕ} (hturns : kept.length < turns) :
    ∃ c', Cache.evict turns c = .ok c' ∧ Keeps c' limit next (fitting limit kept) := by
  induction kept generalizing c turns with
  | nil =>
    obtain ⟨turns, rfl⟩ := Nat.exists_eq_succ_of_ne_zero hturns.ne_bot
    refine ⟨c, ?_, hkeeps⟩
    rw [Cache.evict, if_neg]
    rw [hkeeps.sizeBytes, hkeeps.maxSizeBytes]
    exact not_lt.mpr hlimit
  | cons b tl ih =>
    obtain ⟨turns, rfl⟩ := Nat.exists_eq_succ_of_ne_zero (Nat.ne_zero_of_lt hturns)
    rw [Cache.evict, hkeeps.sizeBytes, hkeeps.maxSizeBytes, fitting]
    by_cases hfits : total (b :: tl) ≤ limit
    · rw [if_neg (not_lt.mpr hfits), if_pos hfits]
      exact ⟨c, rfl, hkeeps⟩
    · rw [if_pos (not_le.mp hfits), if_neg hfits]
      rw [forall_mem_cons] at hsizes
      rw [total_cons] at hint
      have htail : total tl < 2 ^ 63 := by omega
      obtain ⟨c', hevict, hkeeps', hsame⟩ := evictOldest_keeps hkeeps hnext hsizes.2 htail
      rw [hevict]
      exact ih hkeeps' (hsame ▸ hmaxSeq) hsizes.2 htail (Nat.lt_of_succ_lt_succ hturns)

theorem put_keeps (hkeeps : Keeps c limit next kept) (hnext : next < 2 ^ 64) (hlimit : 0 ≤ limit)
    (hsizes : ∀ b ∈ kept, 0 ≤ b.blockSize) (hsize : 0 ≤ b.blockSize)
    (hfits : total kept + b.blockSize < 2 ^ 63) :
    ∃ c', c.put next b = .ok c' ∧ Keeps c' limit (next + 1) (fitting limit (kept ++ [b])) := by
  obtain ⟨henabled, hmaxSize, hlength, hentries, htotal, hmax⟩ := hkeeps
  have hbelow : ∀ e ∈ c.cache.entries, e.1 < next := by
    rw [hentries]
    intro e hentry
    have := (of_mem_zip hentry).1
    rw [mem_range'_1] at this
    omega
  have hfilled : (c.cache.insert next b).entries = numbered (next - kept.length) (kept ++ [b]) := by
    rw [numbered_concat, Nat.sub_add_cancel hlength, ← hentries]
    exact insertEntry_concat hbelow
  have hwrapped : wrapInt (c.sizeBytes + b.blockSize) = total (kept ++ [b]) := by
    have := total_nonneg hsizes
    rw [htotal, wrapInt_of_lt (by omega) (by omega), total_concat]
  have hput : c.put next b = Cache.evict ((c.cache.insert next b).entries.length + 1)
      { c with cache := c.cache.insert next b, maxSeq := next
               sizeBytes := total (kept ++ [b]) } := by
    rw [Cache.put, if_neg (by simp [henabled]; omega), if_neg, if_neg (by omega), hwrapped]
    rw [uint64]
    omega
  rw [hput]
  refine evict_keeps ?_ rfl (show next + 1 ≤ 2 ^ 64 from hnext) hlimit ?_ ?_ ?_
  · refine ⟨henabled, hmaxSize, by simpa using hlength, ?_, rfl, .inl rfl⟩
    simpa using hfilled
  · simpa [or_imp, forall_and] using ⟨hsizes, hsize⟩
  · rwa [total_concat]
  · simp [hfilled, numbered]

theorem putAll_enabled (hfirst : first + blocks.length ≤ 2 ^ 64) (hlimit : 0 < limit)
    (hsizes : ∀ b ∈ blocks, 0 ≤ b.blockSize) (hfits : NoOverflow limit blocks) :
    ∃ c, putAll limit first blocks = .ok c ∧
      Keeps c limit (first + blocks.length) (fitting limit blocks) := by
  induction blocks using List.reverseRecOn with
  | nil =>
    exact ⟨newCache limit, rfl, by simpa [newCache] using hlimit.ne', rfl, Nat.zero_le _, rfl, rfl,
      .inr ⟨rfl, rfl⟩⟩
  | append_singleton blocks b ih =>
    rw [length_append, length_singleton] at hfirst ⊢
    rw [forall_mem_append, forall_mem_singleton] at hsizes
    have hearlier : NoOverflow limit blocks := by
      intro i hi
      have hlt := hfits i (by simp; omega)
      rwa [take_append_of_le_length hi.le, getElem_append_left hi] at hlt
    have hlast : total (fitting limit blocks) + b.blockSize < 2 ^ 63 := by
      simpa using hfits blocks.length (by simp)
    obtain ⟨c, hrun, hkeeps⟩ := ih (by omega) hsizes.1 hearlier
    obtain ⟨c', hput, hkeeps'⟩ := put_keeps hkeeps (by omega) hlimit.le
      (fun b hmem => hsizes.1 b (fitting_suffix.mem hmem)) hsizes.2 hlast
    rw [fitting_concat hsizes.2] at hkeeps'
    refine ⟨c', ?_, hkeeps'⟩
    rw [putAll, numbered_concat, foldlM_append]
    exact bind_of_ok hrun (bind_of_ok hput rfl)

theorem putAll_zero : putAll 0 first blocks = .ok (newCache 0) := by
  rw [putAll]
  induction numbered first blocks with
  | nil => rfl
  | cons ad tl ih => exact ih

theorem fitting_zero (hpos : ∀ b ∈ blocks, 0 < b.blockSize) : fitting 0 blocks = [] := by
  induction blocks with
  | nil => rfl
  | cons b tl ih =>
    rw [forall_mem_cons] at hpos
    have := total_nonneg fun b hmem => (hpos.2 b hmem).le
    rw [fitting, if_neg, ih hpos.2]
    rw [total_cons]
    omega

/-- After consecutive blocks the cache holds the longest run up to the last block that fits, and
its size. -/
theorem putAll_holds (hfirst : first + blocks.length ≤ 2 ^ 64) (hlim : 0 ≤ limit)
    (hsizes : ∀ b ∈ blocks, 0 ≤ b.blockSize) (hfits : NoOverflow limit blocks)
    (hpos : limit = 0 → ∀ b ∈ blocks, 0 < b.blockSize) :
    ∃ c kept, putAll limit first blocks = .ok c ∧ kept <:+ blocks ∧
      c.cache.entries = numbered (first + blocks.length - kept.length) kept ∧
      c.sizeBytes = total kept ∧ total kept ≤ limit ∧
      ∀ s, s <:+ blocks → total s ≤ limit → s <:+ kept := by
  have hrun : ∃ c, putAll limit first blocks = .ok c ∧ c.cache.entries =
      numbered (first + blocks.length - (fitting limit blocks).length) (fitting limit blocks) ∧
      c.sizeBytes = total (fitting limit blocks) := by
    rcases hlim.eq_or_lt' with rfl | hlim
    · rw [fitting_zero (hpos rfl)]
      exact ⟨newCache 0, putAll_zero, rfl, rfl⟩
    · obtain ⟨c, hc, hkeeps⟩ := putAll_enabled hfirst hlim hsizes hfits
      exact ⟨c, hc, hkeeps.entries, hkeeps.sizeBytes⟩
  obtain ⟨c, hc, hent, hsize⟩ := hrun
  exact ⟨c, fitting limit blocks, hc, fitting_suffix, hent, hsize, total_fitting_le hlim,
    fun s => suffix_fitting⟩

def threeBlocks : List (CachedBlock Char) := [⟨'a', 3⟩, ⟨'b', 1⟩, ⟨'c', 2⟩]

theorem putAll_holds_three :
    ∃ c kept, putAll 5 0 threeBlocks = .ok c ∧ kept <:+ threeBlocks ∧
      c.cache.entries = numbered (0 + threeBlocks.length - kept.length) kept ∧
      c.sizeBytes = total kept ∧ total kept ≤ 5 ∧
      ∀ s, s <:+ threeBlocks → total s ≤ 5 → s <:+ kept :=
  putAll_holds (by decide) (by decide) (by decide) (by unfold NoOverflow; decide) nofun

/-- A negative limit makes the loop evict from an empty cache, and sizes beyond `int` wrap.  A block
is evicted that would fit with a negative one after it, and with the limit 0 nothing is held. -/
theorem putAll_fails :
    (putAll (-1) 0 [⟨'a', 1⟩]).toOption.isNone ∧
      (putAll (2 ^ 63 - 1) 0 [⟨'a', 2 ^ 63 - 1⟩, ⟨'b', 1⟩]).toOption.map Cache.sizeBytes =
        some (-2 ^ 63) ∧
      (putAll 2 0 [⟨'a', 3⟩, ⟨'b', -1⟩]).toOption.map (·.cache.keys) = some [1] ∧
      (putAll 0 0 [⟨'a', 0⟩]).toOption.map (·.cache.keys) = some [] := by
  decide

end FabricSequencer.Blkstorage
