import Mathlib.Data.List.TakeWhile
import Mathlib.Tactic

/-!
# The stop times of a header receiver

The censorship monitor keeps the times at which a header receiver stopped in a
linked list.  Old times are removed while the list is walked.
-/

/-- A `container/list`: addresses and values from front to back. -/
structure LinkedList (V : Type) where
  elements : List (ℕ × V)
  nodup : (elements.map Prod.fst).Nodup

namespace LinkedList

open List

variable {V : Type}

def new : LinkedList V := ⟨[], nodup_nil⟩

def values (l : LinkedList V) : List V := l.elements.map Prod.snd

def front (l : LinkedList V) : Option (ℕ × V) := l.elements.head?

def back (l : LinkedList V) : Option (ℕ × V) := l.elements.getLast?

/-- `Next`: nil after the last element, and for an element that is in no list. -/
def next (l : LinkedList V) (e : ℕ × V) : Option (ℕ × V) :=
  (l.elements.dropWhile (·.1 ≠ e.1)).tail.head?

/-- After `Remove` the element is in no list. -/
def remove (l : LinkedList V) (e : ℕ × V) : LinkedList V where
  elements := l.elements.filter (·.1 ≠ e.1)
  nodup := l.nodup.sublist (filter_sublist.map Prod.fst)

def freshAddress (l : LinkedList V) : ℕ := (l.elements.map Prod.fst).sum + 1

theorem freshAddress_notMem (l : LinkedList V) : l.freshAddress ∉ l.elements.map Prod.fst := by
  intro hm
  have hle := List.single_le_sum (fun _ _ => Nat.zero_le _) _ hm
  unfold freshAddress at hle
  omega

def pushBack (l : LinkedList V) (v : V) : LinkedList V where
  elements := l.elements ++ [(l.freshAddress, v)]
  nodup := by
    rw [map_append, nodup_append]
    refine ⟨l.nodup, nodup_singleton _, ?_⟩
    rintro a ha _ hb rfl
    rw [map_singleton, mem_singleton] at hb
    rw [hb] at ha
    exact l.freshAddress_notMem ha

@[simp] theorem values_pushBack (l : LinkedList V) (v : V) :
    (l.pushBack v).values = l.values ++ [v] := by
  simp [values, pushBack]

theorem next_remove (l : LinkedList V) (e : ℕ × V) : (l.remove e).next e = none := by
  have hdr : (l.remove e).elements.dropWhile (·.1 ≠ e.1) = [] := by
    rw [dropWhile_eq_nil_iff]
    intro other ho
    exact (mem_filter.mp ho).2
  rw [next, hdr]
  rfl

theorem values_remove_front {l : LinkedList V} {e : ℕ × V} {rest : List (ℕ × V)}
    (hl : l.elements = e :: rest) : (l.remove e).values = rest.map Prod.snd := by
  have hnd := l.nodup
  rw [hl, map_cons, nodup_cons] at hnd
  have hrs : rest.filter (·.1 ≠ e.1) = rest := by
    rw [filter_eq_self]
    intro other ho
    simpa using fun heq => hnd.1 (mem_map.mpr ⟨other, ho, heq⟩)
  change (l.elements.filter (·.1 ≠ e.1)).map Prod.snd = _
  rw [hl, filter_cons_of_neg (by simp), hrs]

end LinkedList

namespace FabricSequencer.Blocksprovider

open List

/-- Times are counted in nanoseconds. -/
structure HeaderReceiverTracker where
  stopTimes : Option (LinkedList ℤ)

namespace HeaderReceiverTracker

/-- The loop of `pruneOlderThan`.  A turn removes an element or is the last. -/
def pruneFrom (u : ℤ) : ℕ → LinkedList ℤ → Option (ℕ × ℤ) → LinkedList ℤ
  | fuel + 1, stopTimes, some e =>
    if e.2 < u then
      let stopTimes := stopTimes.remove e
      pruneFrom u fuel stopTimes (stopTimes.next e)
    else stopTimes
  | _, stopTimes, _ => stopTimes

variable (tracker : HeaderReceiverTracker) (u : ℤ)

def pruneOlderThan : HeaderReceiverTracker :=
  match tracker.stopTimes with
  | none => { tracker with stopTimes := some LinkedList.new }
  | some stopTimes =>
    { tracker with
      stopTimes := some (pruneFrom u (stopTimes.elements.length + 1) stopTimes stopTimes.front) }

def appendIfNewer : HeaderReceiverTracker × Bool :=
  let stopTimes := tracker.stopTimes.getD LinkedList.new
  match stopTimes.back with
  | none => ({ tracker with stopTimes := some (stopTimes.pushBack u) }, true)
  | some e =>
    if e.2 < u then ({ tracker with stopTimes := some (stopTimes.pushBack u) }, true)
    else ({ tracker with stopTimes := some stopTimes }, false)

def times : List ℤ := (tracker.stopTimes.getD LinkedList.new).values

variable {tracker}

theorem times_appendIfNewer :
    (tracker.appendIfNewer u).1.times =
      if tracker.times.getLast?.all (· < u) then tracker.times ++ [u] else tracker.times := by
  unfold appendIfNewer times
  generalize tracker.stopTimes.getD LinkedList.new = l
  have hla : l.values.getLast? = l.back.map Prod.snd := getLast?_map
  dsimp only
  rw [hla]
  cases l.back with
  | none => simp
  | some e => by_cases hn : e.2 < u <;> simp [hn]

theorem sorted_appendIfNewer (hsr : tracker.times.Pairwise (· ≤ ·)) :
    (tracker.appendIfNewer u).1.times.Pairwise (· ≤ ·) := by
  rw [times_appendIfNewer]
  split_ifs with hnew
  · rcases eq_nil_or_concat' tracker.times with hnil | ⟨bf, la, htm⟩
    · simp [hnil]
    · rw [htm] at hsr hnew ⊢
      have hla : la < u := by simpa using hnew
      have hb := (pairwise_append.mp hsr).2.2
      rw [pairwise_append]
      refine ⟨hsr, pairwise_singleton _ _, ?_⟩
      simp only [mem_append, mem_singleton, forall_eq]
      rintro s (hs | rfl)
      · exact (hb s hs la mem_cons_self).trans hla.le
      · exact hla.le
  · exact hsr

/-- The element that was removed has no next element, so the loop ends there. -/
theorem pruneFrom_succ (fuel : ℕ) (l : LinkedList ℤ) (e : ℕ × ℤ) :
    pruneFrom u (fuel + 1) l (some e) = if e.2 < u then l.remove e else l := by
  rw [pruneFrom]
  dsimp only
  rw [LinkedList.next_remove]
  cases fuel <;> rfl

theorem times_pruneOlderThan :
    (tracker.pruneOlderThan u).times =
      if tracker.times.head?.any (· < u) then tracker.times.tail else tracker.times := by
  cases hst : tracker.stopTimes with
  | none => simp [pruneOlderThan, times, hst, LinkedList.new, LinkedList.values]
  | some l =>
    simp only [pruneOlderThan, times, hst, Option.getD_some]
    cases hl : l.elements with
    | nil => simp [LinkedList.front, LinkedList.values, hl, pruneFrom]
    | cons e tl =>
      rw [LinkedList.front, hl, head?_cons, pruneFrom_succ]
      by_cases hd : e.2 < u
      · rw [if_pos hd, LinkedList.values_remove_front hl]
        simp [LinkedList.values, hl, hd]
      · rw [if_neg hd]
        simp [LinkedList.values, hl, hd]

/-- Pruning keeps the times that are not before `u`, in their order, exactly if at most one time
is before `u`. -/
theorem pruneOlderThan_iff (hsort : tracker.times.Pairwise (· ≤ ·)) :
    (tracker.pruneOlderThan u).times = tracker.times.filter (¬ · < u) ↔
      (tracker.times.filter (· < u)).length ≤ 1 := by
  rw [times_pruneOlderThan]
  generalize tracker.times = ts at hsort
  cases ts with
  | nil => simp
  | cons s rest =>
    rw [pairwise_cons] at hsort
    by_cases hold : s < u
    · have hself : rest = rest.filter (¬ · < u) ↔ rest.filter (· < u) = [] := by
        rw [eq_comm, filter_eq_self, filter_eq_nil_iff]
        simp
      simpa [hold] using hself
    · have hall : ∀ t ∈ s :: rest, ¬ t < u := by
        rw [forall_mem_cons]
        exact ⟨hold, fun t ht => not_lt.mpr ((not_lt.mp hold).trans (hsort.1 t ht))⟩
      have hkept : (s :: rest).filter (¬ · < u) = s :: rest := by
        rw [filter_eq_self]
        simpa using hall
      have hgone : (s :: rest).filter (· < u) = [] := by
        rw [filter_eq_nil_iff]
        simpa using hall
      rw [hkept, hgone]
      simp [hold]

def stoppedTwice : HeaderReceiverTracker :=
  ((HeaderReceiverTracker.mk none).appendIfNewer 1).1.appendIfNewer 2 |>.1

theorem sorted_stoppedTwice : stoppedTwice.times.Pairwise (· ≤ ·) :=
  sorted_appendIfNewer 2 (sorted_appendIfNewer 1 Pairwise.nil)

theorem pruneOlderThan_one :
    stoppedTwice.times.Pairwise (· ≤ ·) ∧ (stoppedTwice.pruneOlderThan 2).times = [2] :=
  ⟨sorted_stoppedTwice, (pruneOlderThan_iff 2 sorted_stoppedTwice).mpr (by decide)⟩

theorem pruneOlderThan_two :
    stoppedTwice.times.Pairwise (· ≤ ·) ∧ stoppedTwice.times = [1, 2] ∧
      (stoppedTwice.pruneOlderThan 3).times = [2] :=
  ⟨sorted_stoppedTwice, by decide, by decide⟩

end HeaderReceiverTracker

end FabricSequencer.Blocksprovider
